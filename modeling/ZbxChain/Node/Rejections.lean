import ZbxChain.Mempool.Admission
import ZbxChain.Node.Replicas
import ZbxChain.State.NodePersistence

/-!
# Rejected candidates

`execute_and_commit_inner` of `node/src/block_producer.rs` with all that it writes to, among the
other tasks of the node. A rejected block has written to its view, its clone of the validator set
and its delta.
-/

namespace ZbxChain

open MutableTrie Mpt StakingLedger

/-! ## The adapter of the tries -/

section

variable {DB : Type} [TrieDB DB]

theorem later_applyAccounts (storage : Map Address (Map H256 H256)) (db : DB)
    (entries : List ((_ : Address) × AccountState)) :
    Extends Later (applyAccounts storage db entries : TrieM DB Unit) := by
  induction entries with
  | nil => exact later_pure _
  | cons entry rest ih =>
    refine later_bind ?_ fun _ => ih
    unfold applyAccount
    split
    · exact later_pure _
    split
    · exact later_insert _ _
    · exact Later.refl

def afterStorageTrie (storage : Map Address (Map H256 H256)) (db : DB)
    (entry : (_ : Address) × AccountState) : DB :=
  match dirtySlots storage entry.1 with
  | some slots => (finalState (storageTrieWithDb slots entry.2.storageRoot db)).db
  | none => db

def adapterAfter (accounts : Map Address AccountState) (storage : Map Address (Map H256 H256))
    (db : DB) : DB :=
  let db := accounts.entries.foldl (afterStorageTrie storage) db
  (finalState (stateTrieWithDb accounts storage db)).db

theorem afterStorageTrie_eq (storage : Map Address (Map H256 H256)) (db : DB)
    (entry : (_ : Address) × AccountState) : afterStorageTrie storage db entry = db := by
  unfold afterStorageTrie
  split
  · rw [storageTrieWithDb, applySlots_eq]
    exact (TrieOp.later_exec _ _).1
  · rfl

theorem adapterAfter_eq (accounts : Map Address AccountState)
    (storage : Map Address (Map H256 H256)) (db : DB) : adapterAfter accounts storage db = db := by
  have hfold : accounts.entries.foldl (afterStorageTrie storage) db = db := by
    induction accounts.entries with
    | nil => rfl
    | cons entry rest ih => rwa [List.foldl_cons, afterStorageTrie_eq]
  unfold adapterAfter
  rw [hfold]
  exact (later_applyAccounts storage db _ _).1

end

namespace BlockProducer

structure Shared where
  db : ZbxDb
  vs : Option ValidatorSet
  pool : Mempool

/-- A commit under way. The transactions write to `st`, with the clone of the validator set, and
the tries to an adapter on the shared storage. `turn` counts the turns of the other tasks. -/
structure Attempt where
  shared : Shared
  st : BlockState
  pending : List (H256 × Bytes)
  turn : Nat

abbrev AttemptM := EStateM (Fault String) Attempt

def Attempt.start (block : Block) (s : Shared) : Attempt :=
  ⟨s, .start (seededView s.db block) s.vs, [], 0⟩

def Attempt.adapter (w : Attempt) : ZbxDbTrieAdapter := ⟨w.shared.db, w.pending⟩

def failed : Fault ExecutionError → Fault String
  | .err e => .err ("execute: " ++ e.display)
  | .panic => .panic

/-- The other tasks take a turn. -/
def yieldTo (others : Nat → Shared → Shared) : AttemptM PUnit :=
  modify fun w => { w with shared := others w.turn w.shared, turn := w.turn + 1 }

def attemptTx (E : Engines) (header : BlockHeader) (tx : SignedTransaction) : AttemptM PUnit := do
  let w ← get
  match executeOne E header w.shared.db w.st tx with
  | .ok st => set { w with st := st }
  | .error e => throw (failed e)

def attemptTxs (E : Engines) (others : Nat → Shared → Shared) (header : BlockHeader) :
    List SignedTransaction → AttemptM PUnit
  | [] => return ⟨⟩
  | tx :: rest => do
    yieldTo others
    attemptTx E header tx
    attemptTxs E others header rest

def attemptRoot : AttemptM H256 := do
  let w ← get
  -- what the tries put into the adapter stays there when no root comes of it
  let adapter := adapterAfter w.st.view.visible w.st.view.diffs.storage w.adapter
  set { w with shared := { w.shared with db := adapter.db }, pending := adapter.pending }
  match w.st.view.stateRootWithDb w.adapter with
  | .ok root => return root
  | .error (.err e) => throw (failed (.err (.state ("trie state_root: " ++ e.display))))
  | .error .panic => throw .panic

def attemptBlock (E : Engines) (others : Nat → Shared → Shared) (block : Block) :
    AttemptM H256 := do
  if blockGasLimit < block.header.gasLimit.toNat then
    throw (failed (.err (.validation ("gas_limit " ++ toString block.header.gasLimit ++
      " > protocol max " ++ toString blockGasLimit))))
  else
    attemptTxs E others block.header block.transactions
    modify fun w => { w with st := { w.st with view := payReward block.header w.st.view } }
    attemptRoot

def checkHead (block : Block) : AttemptM PUnit := do
  let w ← get
  let parent := block.header.number.toNat - 1
  let head := (w.shared.db.getLatestBlockNumber.getD 0).toNat
  if head ≠ parent then
    throw (.err ("reorg detected: expected head " ++ toString parent ++ ", got " ++
      toString head ++ " — dropping candidate"))

def Attempt.publish (block : Block) (root : H256) (w : Attempt) : Block × Attempt :=
  let exec := ⟨w.st.receipts, w.st.view.diffs, w.st.cumulativeGas, root, w.st.delta, w.st.vs⟩
  let block := { block with header := patchHeader block.header exec }
  (block, { w with shared := ⟨persist w.shared.db w.adapter block exec, exec.vs,
    (w.shared.pool.updateBaseFee block.header).removeConfirmed block.transactions⟩ })

/-- `execute_and_commit_inner` among other tasks. -/
def commitShared (E : Engines) (others : Nat → Shared → Shared) (block : Block) :
    AttemptM Block := do
  let root ← attemptBlock E others block
  yieldTo others
  checkHead block
  modifyGet (Attempt.publish block root)

/-! ## What the attempt writes to the shared state -/

/-- What the other tasks alone make of the shared state. -/
def turns (others : Nat → Shared → Shared) (s : Shared) : Nat → Shared
  | 0 => s
  | n + 1 => others n (turns others s n)

theorem turns_id (s : Shared) (n : Nat) : turns (fun _ => id) s n = s := by
  induction n with
  | zero => rfl
  | succ n ih => exact ih

variable {E : Engines} {others : Nat → Shared → Shared} {block : Block} {s : Shared}
  {header : BlockHeader} {w : Attempt}

def Isolated (others : Nat → Shared → Shared) (s : Shared) (w : Attempt) : Prop :=
  w.shared = turns others s w.turn

def Isolates {α : Type} (others : Nat → Shared → Shared) (s : Shared) (x : AttemptM α) : Prop :=
  Triple (Isolated others s) x (fun _ => Isolated others s) (fun _ => Isolated others s)

theorem isolates_yieldTo : Isolates others s (yieldTo others) :=
  Triple.modify fun w h => congrArg (others w.turn) h

theorem isolates_attemptTx (tx : SignedTransaction) :
    Isolates others s (attemptTx E header tx) := by
  refine Triple.get_bind fun w h => ?_
  cases executeOne E header w.shared.db w.st tx with
  | ok st => exact Triple.set fun _ _ => h
  | error e => exact Triple.throw fun _ hw => hw ▸ h

theorem isolates_attemptTxs (txs : List SignedTransaction) :
    Isolates others s (attemptTxs E others header txs) := by
  induction txs with
  | nil => exact Triple.pure fun _ h => h
  | cons tx rest ih =>
    exact Triple.bind isolates_yieldTo fun _ => Triple.bind (isolates_attemptTx tx) fun _ => ih

theorem isolates_attemptRoot : Isolates others s attemptRoot := by
  refine Triple.get_bind fun w h => ?_
  dsimp only
  rw [adapterAfter_eq]
  refine Triple.bind (Q := fun _ => Isolated others s) (Triple.set fun _ _ => h) fun _ => ?_
  split
  · exact Triple.pure fun _ h => h
  · exact Triple.throw fun _ h => h
  · exact Triple.throw fun _ h => h

theorem isolates_attemptBlock : Isolates others s (attemptBlock E others block) := by
  unfold attemptBlock
  split
  · exact Triple.throw fun _ h => h
  · exact Triple.bind (isolates_attemptTxs _) fun _ =>
      Triple.bind (Triple.modify fun _ h => h) fun _ => isolates_attemptRoot

theorem isolates_checkHead : Isolates others s (checkHead block) := by
  refine Triple.get_bind fun w h => ?_
  dsimp only
  split
  · exact Triple.throw fun _ hw => hw ▸ h
  · exact Triple.pure fun _ hw => hw ▸ h

theorem commitShared_isolated {e : Fault String}
    (h : commitShared E others block (.start block s) = .error e w) : Isolated others s w := by
  have hrun : Triple (Isolated others s) (commitShared E others block) (fun _ _ => True)
      (fun _ => Isolated others s) :=
    Triple.bind isolates_attemptBlock fun _ => Triple.bind isolates_yieldTo fun _ =>
      Triple.bind isolates_checkHead fun _ => fun _ _ => trivial
  have := hrun (.start block s) rfl
  rwa [h] at this

/-! ## The attempt alone -/

theorem attemptTx_ok {tx : SignedTransaction} {st : BlockState}
    (h : executeOne E header w.shared.db w.st tx = .ok st) :
    attemptTx E header tx w = .ok ⟨⟩ { w with st := st } := by
  unfold attemptTx
  rw [estate_bind_ok (estate_get w), h]
  rfl

theorem attemptTx_error {tx : SignedTransaction} {e : Fault ExecutionError}
    (h : executeOne E header w.shared.db w.st tx = .error e) :
    attemptTx E header tx w = .error (failed e) w := by
  unfold attemptTx
  rw [estate_bind_ok (estate_get w), h]
  rfl

theorem attemptTxs_alone (E : Engines) (header : BlockHeader) (txs : List SignedTransaction)
    (w : Attempt) :
    (∀ st, executeTxs E header w.shared.db w.st txs = .ok st → ∃ n,
      attemptTxs E (fun _ => id) header txs w = .ok ⟨⟩ { w with st := st, turn := n }) ∧
    ∀ e, executeTxs E header w.shared.db w.st txs = .error e →
      ∃ w', attemptTxs E (fun _ => id) header txs w = .error (failed e) w' := by
  induction txs generalizing w with
  | nil =>
    refine ⟨fun st h => ⟨w.turn, ?_⟩, nofun⟩
    cases h
    rfl
  | cons tx rest ih =>
    have hrun : attemptTxs E (fun _ => id) header (tx :: rest) w =
        (attemptTx E header tx >>= fun _ => attemptTxs E (fun _ => id) header rest)
          { w with turn := w.turn + 1 } := rfl
    cases hone : executeOne E header w.shared.db w.st tx with
    | error e =>
      rw [executeTxs, hone, hrun,
        estate_bind_error (attemptTx_error (w := { w with turn := w.turn + 1 }) hone)]
      refine ⟨nofun, fun e' h => ?_⟩
      cases h
      exact ⟨_, rfl⟩
    | ok st =>
      rw [executeTxs, hone, hrun,
        estate_bind_ok (attemptTx_ok (w := { w with turn := w.turn + 1 }) hone)]
      exact ih { w with st := st, turn := w.turn + 1 }

theorem attemptRoot_eq (w : Attempt) : attemptRoot w =
    match w.st.view.stateRootWithDb w.adapter with
    | .ok root => .ok root w
    | .error (.err e) => .error (failed (.err (.state ("trie state_root: " ++ e.display)))) w
    | .error .panic => .error .panic w := by
  unfold attemptRoot
  rw [estate_bind_ok (estate_get w)]
  dsimp only
  rw [adapterAfter_eq]
  cases w.st.view.stateRootWithDb w.adapter with
  | ok root => rfl
  | error e => cases e <;> rfl

theorem attemptBlock_alone (E : Engines) (block : Block) (s : Shared) :
    match executeBlock E block s.db s.vs (ZbxDbTrieAdapter.new s.db) (seededView s.db block) with
    | .ok exec => ∃ w, attemptBlock E (fun _ => id) block (.start block s) =
        .ok exec.newStateRoot w ∧ w.shared = s
    | .error e => ∃ w, attemptBlock E (fun _ => id) block (.start block s) =
        .error (failed e) w := by
  unfold executeBlock executeBody attemptBlock
  split_ifs
  · exact ⟨_, rfl⟩
  obtain ⟨hok, herror⟩ := attemptTxs_alone E block.header block.transactions (.start block s)
  cases htxs : executeTxs E block.header s.db (.start (seededView s.db block) s.vs)
      block.transactions with
  | error e =>
    obtain ⟨w, hw⟩ := herror e htxs
    exact ⟨w, estate_bind_error hw _⟩
  | ok st =>
    obtain ⟨n, hw⟩ := hok st htxs
    rw [estate_bind_ok hw]
    -- The reward is paid into the view that the transactions left.
    have hroot := attemptRoot_eq ⟨s, { st with view := payReward block.header st.view }, [], n⟩
    simp only [ok_bind, pure_bind]
    cases hview : (payReward block.header st.view).stateRootWithDb (ZbxDbTrieAdapter.new s.db) with
    | ok root =>
      rw [show Attempt.adapter _ = ZbxDbTrieAdapter.new s.db from rfl, hview] at hroot
      exact ⟨_, hroot, rfl⟩
    | error e =>
      rw [show Attempt.adapter _ = ZbxDbTrieAdapter.new s.db from rfl, hview] at hroot
      cases e <;> exact ⟨_, hroot⟩

theorem commitShared_rejects {e : Fault String}
    (h : executeAndCommit E s.db s.vs block = .error e) :
    ∃ w, commitShared E (fun _ => id) block (.start block s) = .error e w := by
  have halone := attemptBlock_alone E block s
  unfold executeAndCommit at h
  unfold commitShared
  dsimp only at h
  cases hexec : executeBlock E block s.db s.vs (ZbxDbTrieAdapter.new s.db)
      (seededView s.db block) with
  | error fault =>
    rw [hexec] at h halone
    obtain ⟨w, hw⟩ := halone
    refine ⟨w, (estate_bind_error hw _).trans ?_⟩
    cases fault <;> cases h <;> rfl
  | ok exec =>
    rw [hexec] at h halone
    obtain ⟨w, hw, rfl⟩ := halone
    dsimp only at h
    split at h
    · rename_i hhead
      cases h
      -- The turn of the others changes nothing, so the head that is read is the one of `h`.
      have hturn : yieldTo (fun _ => id) w = .ok ⟨⟩ { w with turn := w.turn + 1 } := rfl
      refine ⟨{ w with turn := w.turn + 1 }, (estate_bind_ok hw _).trans
        ((estate_bind_ok hturn _).trans (estate_bind_error ?_ _))⟩
      unfold checkHead
      rw [estate_bind_ok (estate_get _)]
      dsimp only
      rw [if_pos hhead]
      rfl
    · cases h

/-- **A rejected candidate leaves no trace.** Only the other tasks have written to what is
shared, at whatever point the attempt is given up. -/
theorem rejected_leaves_shared (E : Engines) (block : Block) (s : Shared) :
    (∀ others e w, commitShared E others block (.start block s) = .error e w →
      w.shared = turns others s w.turn) ∧
    ∀ e, executeAndCommit E s.db s.vs block = .error e →
      ∃ w, commitShared E (fun _ => id) block (.start block s) = .error e w ∧ w.shared = s := by
  refine ⟨fun others e w h => commitShared_isolated h, fun e h => ?_⟩
  obtain ⟨w, hw⟩ := commitShared_rejects h
  exact ⟨w, hw, (commitShared_isolated hw).trans (turns_id s w.turn)⟩

def replayedDelegation : Block :=
  { delegationBlock with
    transactions := delegationBlock.transactions ++ delegationBlock.transactions }.toBlock

def delegatorShared : Shared := ⟨delegatorNode.db, delegatorDriver.vs, .new .default⟩

def replayedRun : EStateM.Result (Fault String) Attempt Block :=
  commitShared sampleEngines (fun _ => id) replayedDelegation
    (.start replayedDelegation delegatorShared)

/-- The first delegation is in the clone and in the delta when the second is refused for its
nonce. -/
theorem replayedDelegation_leaves_shared : ∃ e w, replayedRun = .error e w ∧
    (w.st.delta.delegations.lookup (1, 2) = some 5 ∧ w.st.vs ≠ delegatorShared.vs) ∧
    w.shared = delegatorShared := by
  have hfails : okAny (fun _ _ => true) replayedRun = false := by decide +kernel
  have hdelta : (finalState replayedRun).st.delta.delegations.lookup (1, 2) = some 5 := by
    decide +kernel
  have hclone : ((finalState replayedRun).st.vs.bind (·.get 1)).map (·.delegatedStake) ≠
      (delegatorShared.vs.bind (·.get 1)).map (·.delegatedStake) := by decide +kernel
  cases h : replayedRun with
  | ok block w =>
    rw [h] at hfails
    cases hfails
  | error e w =>
    rw [h] at hdelta hclone
    have hshared := (rejected_leaves_shared _ _ _).1 _ e w h
    refine ⟨e, w, rfl, ⟨hdelta, fun hvs => hclone ?_⟩, hshared.trans (turns_id _ _)⟩
    rw [← hvs]
    rfl

end BlockProducer

end ZbxChain
