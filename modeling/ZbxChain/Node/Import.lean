import Mathlib.Data.List.Forall2
import ZbxChain.Node.Candidate

/-!
# Blocks from peers

`execute_and_commit_inner` (`node/src/block_producer.rs`) on complete blocks, and what
`handle_message` (`node/src/network.rs`) does to the storage with a message that has passed the
limit on the rate of messages. The mempool, the scores of peers and the answers to them are left
out.
-/

namespace ZbxChain

open BlockProducer List

structure NodeDb where
  db : ZbxDb
  blocks : Map UInt64 WireBlock

namespace NodeDb

/-- The number of the head; zero when nothing is stored. -/
def headNumber (node : NodeDb) : UInt64 := node.db.getLatestBlockNumber.getD 0

def head (node : NodeDb) : Option WireBlock := node.blocks.lookup node.headNumber

end NodeDb

/-! ## Committing -/

def commitmentsOf (txs : List WireTransaction) (exec : ExecutionResult) : Commitments where
  transactionsRoot := computeTxRoot txs
  receiptsRoot := computeReceiptsRoot exec.receipts
  logsBloom := aggregateBlockBloom exec.receipts

def WireBlock.patch (block : WireBlock) (exec : ExecutionResult) : WireBlock :=
  { block with
    header := sealHeader block.header (patchHeader block.header.toBlockHeader exec)
      (commitmentsOf block.transactions exec) }

structure CommittedBlock where
  block : WireBlock
  node : NodeDb
  vs : Option ValidatorSet

def executeOn (E : Engines) (node : NodeDb) (vs : Option ValidatorSet) (block : WireBlock) :
    ExecResult ExecutionResult :=
  executeBlock E block.toBlock node.db vs (ZbxDbTrieAdapter.new node.db)
    (seededView node.db block.toBlock)

def NodeDb.store (node : NodeDb) (block : WireBlock) (exec : ExecutionResult) : NodeDb where
  db := persist node.db (ZbxDbTrieAdapter.new node.db) block.toBlock exec
  blocks := node.blocks.insert block.header.number block

def executeAndCommitInner (E : Engines) (node : NodeDb) (vs : Option ValidatorSet)
    (block : WireBlock) : Except (Fault String) CommittedBlock :=
  match executeOn E node vs block with
  | .error (.err e) => .error (.err ("execute: " ++ e.display))
  | .error .panic => .error .panic
  | .ok exec =>
    let parent := block.header.number.toNat - 1
    let head := node.headNumber.toNat
    if head ≠ parent then
      .error (.err ("reorg detected: expected head " ++ toString parent ++ ", got " ++
        toString head ++ " — dropping candidate"))
    else
      let block := block.patch exec
      .ok ⟨block, node.store block exec, exec.vs⟩

variable {E : Engines} {node : NodeDb} {block : WireBlock}

theorem executeAndCommitInner_ok {vs : Option ValidatorSet} {c : CommittedBlock} :
    executeAndCommitInner E node vs block = .ok c ↔ ∃ exec, executeOn E node vs block = .ok exec ∧
        node.headNumber.toNat = block.header.number.toNat - 1 ∧
        c = ⟨block.patch exec, node.store (block.patch exec) exec, exec.vs⟩ := by
  unfold executeAndCommitInner
  constructor
  · intro h
    split at h
    · cases h
    · cases h
    rename_i exec hexec
    dsimp only at h
    split at h
    · cases h
    rename_i hhead
    cases h
    exact ⟨exec, hexec, not_not.mp hhead, rfl⟩
  · rintro ⟨exec, hexec, hhead, rfl⟩
    rw [hexec]
    dsimp only
    rw [if_neg (not_not_intro hhead)]

/-! ## Messages -/

/-- The messages of the protocol. Only the two that carry blocks to import write to the
storage, so that the others are here without what they carry. -/
inductive Message
  | ping
  | pong
  | status
  | findPeers
  | peers
  | getBlockByHash
  | block (block : WireBlock)
  | getBlockRange
  | blocks (blocks : List WireBlock)
  | getHeaders
  | headers
  | getSnapshotMeta
  | snapshotMetaResp
  | getSnapshotChunk
  | snapshotChunkResp
  | transaction
  | transactions
  | vote
  | quorumCert
  | proposal
  | timeout
  | hs2Proposal
  | timeoutShareMsg
  | timeoutCertMsg
  | gossipMsg

inductive ImportOutcome
  | stored (block : WireBlock)
  | outOfOrder
  | failed (error : String)
  | panicked
  deriving DecidableEq

def ImportOutcome.block? : ImportOutcome → Option WireBlock
  | .stored block => some block
  | _ => none

theorem ImportOutcome.block?_eq_some {outcome : ImportOutcome} :
    outcome.block? = some block ↔ outcome = .stored block := by
  cases outcome <;> simp [ImportOutcome.block?]

structure Attempt where
  before : NodeDb
  received : WireBlock
  outcome : ImportOutcome
  after : NodeDb

/-- Only a block that follows the head is executed; the successor of the head wraps. -/
def importBlock (E : Engines) (node : NodeDb) (block : WireBlock) : Attempt :=
  if block.header.number = node.headNumber + 1 then
    match executeAndCommitInner E node none block with
    | .ok c => ⟨node, block, .stored c.block, c.node⟩
    | .error (.err e) => ⟨node, block, .failed e, node⟩
    | .error .panic => ⟨node, block, .panicked, node⟩
  else ⟨node, block, .outOfOrder, node⟩

/-- A batch goes on after a block that is out of order, and ends at one that fails. -/
def importBlocks (E : Engines) (node : NodeDb) : List WireBlock → List Attempt
  | [] => []
  | block :: rest =>
    let attempt := importBlock E node block
    match attempt.outcome with
    | .stored _ | .outOfOrder => attempt :: importBlocks E attempt.after rest
    | .failed _ | .panicked => [attempt]

def handleMessage (E : Engines) (node : NodeDb) : Message → List Attempt
  | .block block => [importBlock E node block]
  | .blocks blocks => importBlocks E node blocks
  | _ => []

def NodeDb.afterMessage (E : Engines) (node : NodeDb) (msg : Message) : NodeDb :=
  (((handleMessage E node msg).getLast?).map Attempt.after).getD node

/-! ## What an attempt does -/

variable (E node block) in
@[simp] theorem importBlock_before : (importBlock E node block).before = node := by
  unfold importBlock
  split
  · split <;> rfl
  · rfl

variable (E node block) in
@[simp] theorem importBlock_received : (importBlock E node block).received = block := by
  unfold importBlock
  split
  · split <;> rfl
  · rfl

variable (E node block) in
theorem importBlock_after : (∃ c, executeAndCommitInner E node none block = .ok c ∧
      (importBlock E node block).outcome = .stored c.block ∧
      (importBlock E node block).after = c.node) ∨
    ((∀ stored, (importBlock E node block).outcome ≠ .stored stored) ∧
      (importBlock E node block).after = node) := by
  unfold importBlock
  split
  · cases hcommit : executeAndCommitInner E node none block with
    | ok c => exact .inl ⟨c, rfl, rfl, rfl⟩
    | error fault =>
      cases fault with
      | err e | panic => exact .inr ⟨fun _ h => (by cases h), rfl⟩
  · exact .inr ⟨fun _ h => (by cases h), rfl⟩

theorem outcome_eq_stored {stored : WireBlock} :
    (importBlock E node block).outcome = .stored stored ↔
      block.header.number = node.headNumber + 1 ∧
        ∃ exec, executeOn E node none block = .ok exec ∧
          node.headNumber.toNat = block.header.number.toNat - 1 ∧ stored = block.patch exec := by
  unfold importBlock
  constructor
  · intro h
    split at h
    · rename_i hnext
      cases hcommit : executeAndCommitInner E node none block with
      | ok c =>
        rw [hcommit] at h
        cases h
        obtain ⟨exec, hexec, hhead, rfl⟩ := executeAndCommitInner_ok.mp hcommit
        exact ⟨hnext, exec, hexec, hhead, rfl⟩
      | error fault =>
        rw [hcommit] at h
        cases fault <;> cases h
    · cases h
  · rintro ⟨hnext, exec, hexec, hhead, rfl⟩
    rw [if_pos hnext, executeAndCommitInner_ok.mpr ⟨exec, hexec, hhead, rfl⟩]

variable {a : Attempt} {msg : Message}

theorem mem_importBlocks {blocks : List WireBlock} (h : a ∈ importBlocks E node blocks) :
    a = importBlock E a.before a.received ∧ a.received ∈ blocks := by
  induction blocks generalizing node with
  | nil => cases h
  | cons block rest ih =>
    have hfirst : importBlock E node block = importBlock E (importBlock E node block).before
        (importBlock E node block).received := by
      rw [importBlock_before, importBlock_received]
    have hreceived : (importBlock E node block).received ∈ block :: rest := by
      rw [importBlock_received]
      exact mem_cons_self
    unfold importBlocks at h
    dsimp only at h
    have hsplit : a = importBlock E node block ∨
        a ∈ importBlocks E (importBlock E node block).after rest := by
      split at h
      · exact mem_cons.mp h
      · exact mem_cons.mp h
      · exact .inl (mem_singleton.mp h)
      · exact .inl (mem_singleton.mp h)
    rcases hsplit with rfl | hrest
    · exact ⟨hfirst, hreceived⟩
    · obtain ⟨heq, hmem⟩ := ih hrest
      exact ⟨heq, mem_cons_of_mem _ hmem⟩

def Message.offered : Message → List WireBlock
  | .block offer => [offer]
  | .blocks offers => offers
  | _ => []

theorem mem_handleMessage (h : a ∈ handleMessage E node msg) :
    a = importBlock E a.before a.received ∧ a.received ∈ msg.offered := by
  unfold handleMessage at h
  split at h
  · rw [mem_singleton] at h
    subst h
    rw [importBlock_before, importBlock_received]
    exact ⟨rfl, mem_singleton.mpr rfl⟩
  · exact mem_importBlocks h
  · cases h

theorem stored_of_mem {stored : WireBlock} (h : a ∈ handleMessage E node msg)
    (hstored : a.outcome = .stored stored) :
    ∃ exec, executeOn E a.before none a.received = .ok exec ∧ stored = a.received.patch exec ∧
      a.after = a.before.store stored exec := by
  obtain ⟨ha, -⟩ := mem_handleMessage h
  rcases importBlock_after E a.before a.received with ⟨c, hcommit, houtcome, hafter⟩ | ⟨hnot, -⟩
  · rw [← ha] at houtcome hafter
    cases hstored.symm.trans houtcome
    obtain ⟨exec, hexec, -, rfl⟩ := executeAndCommitInner_ok.mp hcommit
    exact ⟨exec, hexec, rfl, hafter⟩
  · rw [← ha] at hnot
    exact absurd hstored (hnot stored)

theorem after_of_not_stored (h : a ∈ handleMessage E node msg)
    (hnot : ∀ stored, a.outcome ≠ .stored stored) : a.after = a.before := by
  obtain ⟨ha, -⟩ := mem_handleMessage h
  rcases importBlock_after E a.before a.received with ⟨c, -, houtcome, -⟩ | ⟨-, hafter⟩
  · rw [← ha] at houtcome
    exact absurd houtcome (hnot c.block)
  · rwa [← ha] at hafter

def NodeDb.history (node : NodeDb) : Set (UInt64 × WireBlock) :=
  {e | e.1.toNat ≤ node.headNumber.toNat ∧ node.blocks.lookup e.1 = some e.2}

theorem headNumber_le_store (exec : ExecutionResult) :
    node.headNumber.toNat ≤ (node.store block exec).headNumber.toNat := by
  have hlatest : (persist node.db (ZbxDbTrieAdapter.new node.db) block.toBlock exec).latestHeight =
      (node.db.putBlock block.toBlock).latestHeight := by
    unfold persist flushStaking
    rw [putAccounts_eq]
    split <;> rfl
  unfold NodeDb.headNumber NodeDb.store ZbxDb.getLatestBlockNumber
  dsimp only
  rw [hlatest, ZbxDb.putBlock]
  cases node.db.latestHeight with
  | none => exact Nat.zero_le _
  | some height =>
    dsimp only
    split
    next hlt => exact (UInt64.lt_iff_toNat_lt.mp hlt).le
    exact le_rfl

variable (E node block) in
theorem history_importBlock : node.history ⊆ (importBlock E node block).after.history := by
  unfold importBlock
  split
  next hnumber =>
    split
    next c hcommit =>
      obtain ⟨exec, -, hhead, rfl⟩ := executeAndCommitInner_ok.mp hcommit
      have hsucc := congrArg UInt64.toNat hnumber
      rw [UInt64.toNat_add, UInt64.toNat_one] at hsucc
      rintro ⟨number, stored⟩ ⟨hle, hstored⟩
      refine ⟨hle.trans (headNumber_le_store exec), (AList.lookup_insert_ne ?_).trans hstored⟩
      rintro rfl
      change block.header.number.toNat ≤ _ at hle
      omega
    all_goals exact subset_rfl
  · exact subset_rfl

theorem history_importBlocks (blocks : List WireBlock) (node : NodeDb) : node.history ⊆
    ((((importBlocks E node blocks).getLast?).map Attempt.after).getD node).history := by
  induction blocks generalizing node with
  | nil => exact subset_rfl
  | cons block rest ih =>
    have hfirst := history_importBlock E node block
    have hrest := hfirst.trans (ih (importBlock E node block).after)
    unfold importBlocks
    dsimp only
    split
    case h_1 | h_2 =>
      rw [getLast?_cons]
      rwa [Option.getD_map] at hrest
    all_goals exact hfirst

/-- **Whatever peers send, stored history only grows.** -/
theorem imports_only_append (E : Engines) (node : NodeDb) (msgs : List Message) :
    node.history ⊆ (msgs.foldl (NodeDb.afterMessage E) node).history := by
  induction msgs generalizing node with
  | nil => exact subset_rfl
  | cons msg msgs ih =>
    refine subset_trans ?_ (ih _)
    cases msg with
    | block block => exact history_importBlock E node block
    | blocks blocks => exact history_importBlocks blocks node
    | _ => exact subset_rfl

end ZbxChain

/-! ## What is checked of a block from a peer -/

namespace ZbxChain

open BlockProducer WireBlock

/-! ## Signatures -/

def WireTransaction.resign (sign : WireTransaction → Signature) (t : WireTransaction) :
    WireTransaction :=
  { t with sig := sign t }

def WireBlock.resign (sign : WireTransaction → Signature) (block : WireBlock) : WireBlock :=
  { block with transactions := block.transactions.map (WireTransaction.resign sign) }

def Message.resign (sign : WireTransaction → Signature) : Message → Message
  | .block offer => .block (offer.resign sign)
  | .blocks offers => .blocks (offers.map (WireBlock.resign sign))
  | msg => msg

variable {E : Engines} (sign : WireTransaction → Signature)

variable (block : WireBlock)

theorem toBlock_resign : (block.resign sign).toBlock = block.toBlock := by
  unfold toBlock resign
  rw [List.map_map]
  rfl

theorem computeTxRoot_resign (txs : List WireTransaction) :
    computeTxRoot (txs.map (WireTransaction.resign sign)) = computeTxRoot txs := by
  unfold computeTxRoot
  rw [List.map_map]
  rfl

variable {node node' : NodeDb}

theorem executeOn_resign (hdb : node'.db = node.db) (vs : Option ValidatorSet) (block : WireBlock) :
    executeOn E node' vs (block.resign sign) = executeOn E node vs block := by
  unfold executeOn
  rw [hdb, toBlock_resign]

variable (exec : ExecutionResult)

theorem patch_resign : (block.resign sign).patch exec = (block.patch exec).resign sign := by
  unfold patch commitmentsOf
  rw [show (block.resign sign).transactions = block.transactions.map (WireTransaction.resign sign)
    from rfl, computeTxRoot_resign]
  rfl

def Resigned (c c' : CommittedBlock) : Prop :=
  c'.block = c.block.resign sign ∧ c'.node.db = c.node.db

theorem executeAndCommitInner_resign (hdb : node'.db = node.db)
    (vs : Option ValidatorSet) (block : WireBlock) :
    Alike (Resigned sign) (executeAndCommitInner E node vs block)
      (executeAndCommitInner E node' vs (block.resign sign)) := by
  have hhead : node'.headNumber = node.headNumber := by
    unfold NodeDb.headNumber
    rw [hdb]
  unfold executeAndCommitInner
  rw [executeOn_resign sign hdb, hhead, show (block.resign sign).header = block.header from rfl]
  split
  · exact .error _
  · exact .error _
  rename_i exec _
  dsimp only
  split
  · exact .error _
  refine .ok ⟨patch_resign sign block exec, ?_⟩
  dsimp only [NodeDb.store]
  rw [hdb, patch_resign, toBlock_resign]

structure SameAttempt (a a' : Attempt) : Prop where
  db : a'.after.db = a.after.db
  stored : ∀ block, a.outcome = .stored block → a'.outcome = .stored (block.resign sign)
  other : (∀ block, a.outcome ≠ .stored block) → a'.outcome = a.outcome

theorem importBlock_resign (hdb : node'.db = node.db) (block : WireBlock) :
    SameAttempt sign (importBlock E node block) (importBlock E node' (block.resign sign)) := by
  have hhead : node'.headNumber = node.headNumber := by
    unfold NodeDb.headNumber
    rw [hdb]
  have hcommit := executeAndCommitInner_resign (E := E) sign hdb none block
  unfold importBlock
  rw [hhead, show (block.resign sign).header = block.header from rfl]
  by_cases hnumber : block.header.number = node.headNumber + 1
  · rw [if_pos hnumber, if_pos hnumber]
    generalize executeAndCommitInner E node none block = x at hcommit ⊢
    generalize executeAndCommitInner E node' none (block.resign sign) = y at hcommit ⊢
    cases hcommit with
    | ok h =>
      obtain ⟨hblock, hafter⟩ := h
      refine ⟨hafter, fun stored heq => ?_, fun hnot => absurd rfl (hnot _)⟩
      cases heq
      exact congrArg ImportOutcome.stored hblock
    | error fault =>
      cases fault with
      | err e | panic => exact ⟨hdb, fun _ heq => (by cases heq), fun _ => rfl⟩
  · rw [if_neg hnumber, if_neg hnumber]
    exact ⟨hdb, fun _ heq => (by cases heq), fun _ => rfl⟩

theorem importBlocks_resign (hdb : node'.db = node.db) (blocks : List WireBlock) :
    List.Forall₂ (SameAttempt sign) (importBlocks E node blocks)
      (importBlocks E node' (blocks.map (resign sign))) := by
  induction blocks generalizing node node' with
  | nil => exact .nil
  | cons block rest ih =>
    have hfirst := importBlock_resign (E := E) sign hdb block
    have hrest := ih hfirst.db
    rw [List.map_cons]
    unfold importBlocks
    dsimp only
    generalize importBlock E node block = a at hfirst hrest ⊢
    generalize importBlock E node' (block.resign sign) = a' at hfirst hrest ⊢
    cases houtcome : a.outcome with
    | stored stored =>
      rw [hfirst.stored stored houtcome]
      exact .cons hfirst hrest
    | outOfOrder | failed _ | panicked =>
      rw [hfirst.other (by rw [houtcome]; exact fun _ h => (by cases h)), houtcome]
      first
      | exact .cons hfirst hrest
      | exact .cons hfirst .nil

variable (node : NodeDb) (msg : Message)

theorem handleMessage_resign : List.Forall₂ (SameAttempt sign) (handleMessage E node msg)
      (handleMessage E node (msg.resign sign)) := by
  cases msg with
  | block offer => exact .cons (importBlock_resign sign rfl offer) .nil
  | blocks offers => exact importBlocks_resign sign rfl offers
  | _ => exact .nil

theorem db_afterMessage (E : Engines) (node : NodeDb) (msg : Message) :
    (node.afterMessage E msg).db =
      (((handleMessage E node msg).map fun a => a.after.db).getLast?).getD node.db := by
  unfold NodeDb.afterMessage
  rw [List.getLast?_map]
  cases (handleMessage E node msg).getLast? <;> rfl

theorem map_db_of_same {as as' : List Attempt} (h : List.Forall₂ (SameAttempt sign) as as') :
    as'.map (fun a => a.after.db) = as.map fun a => a.after.db := by
  induction h with
  | nil => rfl
  | cons hfirst _ ih =>
    rw [List.map_cons, List.map_cons, ih]
    exact congrArg (· :: _) hfirst.db

theorem afterMessage_resign :
    (node.afterMessage E (msg.resign sign)).db = (node.afterMessage E msg).db := by
  rw [db_afterMessage, db_afterMessage, map_db_of_same sign (handleMessage_resign sign node msg)]

theorem exists_of_forall₂ {α β : Type} {R : α → β → Prop} {l : List α} {l' : List β}
    (h : List.Forall₂ R l l') {x : α} (hx : x ∈ l) : ∃ y ∈ l', R x y := by
  induction h with
  | nil => cases hx
  | cons hfirst _ ih =>
    rcases List.mem_cons.mp hx with rfl | hrest
    · exact ⟨_, List.mem_cons_self, hfirst⟩
    · obtain ⟨y, hy, hr⟩ := ih hrest
      exact ⟨y, List.mem_cons_of_mem _ hy, hr⟩

/-- The transactions of the blocks that a message makes the node store are authentic whatever
signatures the peer puts under them exactly when there are none. The accounts that the message
leaves behind are the same for all signatures. -/
theorem import_authentic_iff {recover : RecoverSigner} {refused : Signature}
    (hrefused : ∀ hash, recover hash refused = none) (node : NodeDb) (msg : Message) :
    ((∀ sign, ∀ a ∈ handleMessage E node (msg.resign sign), ∀ stored,
        a.outcome = .stored stored → stored.Authentic recover) ↔
      ∀ a ∈ handleMessage E node msg, ∀ stored, a.outcome = .stored stored →
        stored.transactions = []) ∧
    ∀ sign, (node.afterMessage E (msg.resign sign)).db = (node.afterMessage E msg).db := by
  refine ⟨⟨fun hauth a ha stored hstored => ?_, fun hempty sign a' ha' stored hstored => ?_⟩,
    fun sign => afterMessage_resign sign node msg⟩
  · let sign : WireTransaction → Signature := fun _ => refused
    obtain ⟨a', ha', hsame⟩ := exists_of_forall₂ (handleMessage_resign (E := E) sign node msg) ha
    have hall := hauth sign a' ha' _ (hsame.stored stored hstored)
    refine List.eq_nil_iff_forall_not_mem.mpr fun t ht => ?_
    have hrecovers := hall (t.resign sign) (List.mem_map_of_mem ht)
    rw [WireTransaction.Authentic, show (t.resign sign).sig = refused from rfl, hrefused]
      at hrecovers
    cases hrecovers
  · obtain ⟨a, ha, hsame⟩ :=
      exists_of_forall₂ (handleMessage_resign (E := E) sign node msg).flip ha'
    cases houtcome : a.outcome with
    | stored block =>
      have heq := (hsame.stored block houtcome).symm.trans hstored
      cases heq
      intro t ht
      rw [show (block.resign sign).transactions = block.transactions.map _ from rfl,
        hempty a ha block houtcome] at ht
      cases ht
    | outOfOrder | failed _ | panicked =>
      rw [hsame.other (by rw [houtcome]; exact fun _ h => (by cases h)), houtcome] at hstored
      cases hstored

/-! ### A transfer that nobody signed -/

def fundedNode : NodeDb where
  db := fundedDb.putBlock ⟨(idleParent 1).toBlockHeader, []⟩
  blocks := AList.insert 0 ⟨idleParent 1, [], []⟩ ∅

/-- A transfer of 5 from `0xa1` to `0xb2`. -/
def transferOfFive (sig : Signature) : WireTransaction where
  tx := { (SignedTransaction.basic 0xa1 0 (some 0xb2) 5 []).tx with txType := .dynamicFee }
  sig := sig
  sender := 0xa1
  hash := 0

def transferBlock (sig : Signature) : WireBlock :=
  ⟨candidateHeader (idleParent 1) idleConfig (some 2), [transferOfFive sig], []⟩

/-- A signature with a `v` of 1 is one of `0xa1`, one with a `v` of 0 is one of `0xee`. -/
def recoverByV : RecoverSigner := fun _ sig =>
  if sig.v = 1 then some 0xa1 else if sig.v = 0 then some 0xee else none

theorem exists_stored (E : Engines) (node : NodeDb) (block : WireBlock)
    (p : Attempt → WireBlock → Prop)
    (h : ∃ stored ∈ (importBlock E node block).outcome.block?, p (importBlock E node block) stored) :
    ∃ a stored, a ∈ handleMessage E node (.block block) ∧ a.outcome = .stored stored ∧
      a.before = node ∧ a.received = block ∧ p a stored := by
  obtain ⟨stored, hstored, hp⟩ := h
  exact ⟨_, stored, List.mem_singleton.mpr rfl, ImportOutcome.block?_eq_some.mp hstored,
    importBlock_before _ _ _, importBlock_received _ _ _, hp⟩

/-- The value and the gas are taken from `0xa1`. -/
def takesTransfer (a : Attempt) (_ : WireBlock) : Bool :=
  (a.after.db.getAccount 0xa1).balance = 957995 && (a.after.db.getAccount 0xb2).balance = 5

/-- The transfer can be given a signature under which it is not authentic where it is stored, and
takes 5 and the gas from `0xa1` under every signature. -/
theorem signed_transfer_authentic :
    (¬ ∀ sign, ∀ a ∈ handleMessage .idle fundedNode
        ((Message.block (transferBlock ⟨1, 0, 0⟩)).resign sign),
      ∀ stored, a.outcome = .stored stored → stored.Authentic recoverByV) ∧
    ∀ sign, ((fundedNode.afterMessage .idle
      ((Message.block (transferBlock ⟨1, 0, 0⟩)).resign sign)).db.getAccount 0xa1).balance =
        957995 := by
  obtain ⟨a, stored, ha, hstored, -, hreceived, htakes⟩ :=
    exists_stored .idle fundedNode (transferBlock ⟨1, 0, 0⟩) (takesTransfer · ·) (by decide +kernel)
  have h := @import_authentic_iff .idle recoverByV ⟨2, 0, 0⟩ (fun _ => rfl) fundedNode
    (.block (transferBlock ⟨1, 0, 0⟩))
  refine ⟨fun hauth => ?_, fun sign => ?_⟩
  · have hempty := h.1.mp hauth a ha stored hstored
    obtain ⟨exec, -, rfl, -⟩ := stored_of_mem ha hstored
    rw [show (a.received.patch exec).transactions = a.received.transactions from rfl, hreceived]
      at hempty
    cases hempty
  · rw [h.2 sign]
    cases List.mem_singleton.mp ha
    unfold takesTransfer at htakes
    rw [Bool.and_eq_true] at htakes
    exact of_decide_eq_true htakes.1

/-- Signed by `0xee`, the transfer is stored all the same, and takes from `0xa1`. -/
theorem unsigned_transfer_stored : (fundedNode.db.getAccount 0xa1).balance = 1000000 ∧
    ∃ a stored, a ∈ handleMessage .idle fundedNode (.block (transferBlock ⟨0, 0, 0⟩)) ∧
      a.outcome = .stored stored ∧ ¬ stored.Authentic recoverByV ∧
      (a.after.db.getAccount 0xa1).balance = 957995 := by
  refine ⟨by decide, ?_⟩
  obtain ⟨a, stored, ha, hstored, -, hreceived, htakes⟩ :=
    exists_stored .idle fundedNode (transferBlock ⟨0, 0, 0⟩) (takesTransfer · ·) (by decide +kernel)
  unfold takesTransfer at htakes
  rw [Bool.and_eq_true] at htakes
  have hbalance := of_decide_eq_true htakes.1
  obtain ⟨exec, -, rfl, -⟩ := stored_of_mem ha hstored
  refine ⟨a, _, ha, hstored, fun hauth => ?_, hbalance⟩
  rw [hreceived] at hauth
  have hsender : some (0xee : Address) = some 0xa1 :=
    hauth (transferOfFive ⟨0, 0, 0⟩) (List.mem_singleton.mpr rfl)
  exact absurd hsender (by decide)

/-! ## The received header -/

@[mk_iff] structure WireBlock.Carries (block : WireBlock) (exec : ExecutionResult) : Prop where
  gasUsed : block.header.gasUsed = UInt64.ofNat exec.gasUsed
  stateRoot : block.header.stateRoot = exec.newStateRoot
  transactionsRoot : block.header.transactionsRoot = computeTxRoot block.transactions
  receiptsRoot : block.header.receiptsRoot = computeReceiptsRoot exec.receipts
  logsBloom : block.header.logsBloom = aggregateBlockBloom exec.receipts

instance (block : WireBlock) (exec : ExecutionResult) : Decidable (block.Carries exec) :=
  decidable_of_iff' _ (block.carries_iff exec)

theorem patch_of_carries {block : WireBlock} {exec : ExecutionResult} (h : block.Carries exec) :
    block.patch exec = block := by
  obtain ⟨⟨⟨coinbase, stateRoot, number, gasLimit, gasUsed, timestamp, mixHash, baseFee⟩,
    parentHash, uncleHash, transactionsRoot, receiptsRoot, logsBloom, difficulty, extraData, nonce,
    committeeSignature, epoch, epochSeed⟩, transactions, uncles⟩ := block
  obtain ⟨hgas, hstate, htxs, hreceipts, hbloom⟩ := h
  dsimp only at hgas hstate htxs hreceipts hbloom
  subst hgas hstate htxs hreceipts hbloom
  rfl

/-- The block extends the head by the checks of `validate_against_parent`. -/
def NodeDb.Extends (node : NodeDb) (block : WireBlock) : Prop :=
  ∃ head, node.head = some head ∧ block.header.validateAgainstParent head.header = .ok ()

def NodeDb.Confirms (E : Engines) (node : NodeDb) (block : WireBlock) : Prop :=
  ∃ exec, executeOn E node none block = .ok exec ∧ block.Carries exec

structure Attempt.Exact (E : Engines) (a : Attempt) (stored : WireBlock) : Prop where
  received : stored = a.received
  parentHash : ∃ head, a.before.head = some head ∧ stored.header.parentHash = head.header.hash
  valid : a.before.Extends stored
  executed : a.before.Confirms E stored

theorem exact_iff {a : Attempt} {exec : ExecutionResult}
    (hexec : executeOn E a.before none a.received = .ok exec) :
    a.Exact E (a.received.patch exec) ↔ a.before.Extends a.received ∧ a.received.Carries exec := by
  constructor
  · intro hexact
    have hsame := hexact.received
    have hcarries : a.received.Carries exec := by
      rw [← hsame]
      exact ⟨rfl, rfl, rfl, rfl, rfl⟩
    refine ⟨?_, hcarries⟩
    have hvalid := hexact.valid
    rwa [hsame] at hvalid
  · rintro ⟨hextends, hcarries⟩
    rw [patch_of_carries hcarries]
    obtain ⟨head, hhead, hchecks⟩ := hextends
    have hchild := (SealedHeader.validateAgainstParent_ok _ _).mp hchecks
    exact ⟨rfl, ⟨head, hhead, hchild.parentHash⟩, ⟨head, hhead, hchecks⟩, ⟨exec, hexec, hcarries⟩⟩

def WireBlock.withParent (parentHash : H256) (block : WireBlock) : WireBlock :=
  { block with header := { block.header with parentHash := parentHash } }

theorem stored_withParent {node : NodeDb} {block stored : WireBlock} (parentHash : H256)
    (h : (importBlock E node block).outcome = .stored stored) :
    (importBlock E node (block.withParent parentHash)).outcome =
      .stored (stored.withParent parentHash) := by
  obtain ⟨hnext, exec, hexec, hhead, rfl⟩ := outcome_eq_stored.mp h
  exact outcome_eq_stored.mpr ⟨hnext, exec, hexec, hhead, rfl⟩

theorem not_exact_withParent (stored : WireBlock) : ∃ parentHash, ∀ a : Attempt,
    a.before = node → ¬ a.Exact E (stored.withParent parentHash) := by
  obtain hnone | ⟨head, hhead⟩ := Option.eq_none_or_eq_some node.head
  · refine ⟨0, fun a hbefore h => ?_⟩
    obtain ⟨head, hhead, -⟩ := h.parentHash
    rw [hbefore, hnone] at hhead
    cases hhead
  · refine ⟨head.header.hash + 1, fun a hbefore h => ?_⟩
    obtain ⟨head', hhead', hparent⟩ := h.parentHash
    rw [hbefore, hhead] at hhead'
    cases hhead'
    have hsame : head.header.hash + 1 = head.header.hash := hparent
    bv_omega

/-- Whatever parent the peer names, the stored block is the received one, on the head and with
the values of its execution: exactly when the block is refused. What is stored is exact where it
came as such, and a block that is not stored leaves no trace. -/
theorem import_exact_iff {node : NodeDb} {msg : Message} {a : Attempt}
    (h : a ∈ handleMessage E node msg) :
    ((∀ parentHash stored,
        (importBlock E a.before (a.received.withParent parentHash)).outcome = .stored stored →
        (importBlock E a.before (a.received.withParent parentHash)).Exact E stored) ↔
      ∀ stored, a.outcome ≠ .stored stored) ∧
    (∀ stored, a.outcome = .stored stored →
      a.after.blocks.lookup stored.header.number = some stored ∧
        (a.before.Extends a.received → a.before.Confirms E a.received → a.Exact E stored)) ∧
    ((∀ stored, a.outcome ≠ .stored stored) → a.after = a.before) := by
  refine ⟨⟨fun hexact stored hstored => ?_, fun hnot parentHash stored hstored => ?_⟩,
    fun stored hstored => ?_, after_of_not_stored h⟩
  · rw [(mem_handleMessage h).1] at hstored
    obtain ⟨parentHash, hnot⟩ := not_exact_withParent (E := E) a.before stored
    exact hnot _ (importBlock_before _ _ _)
      (hexact parentHash _ (stored_withParent parentHash hstored))
  · obtain ⟨hnext, exec, hexec, hhead, -⟩ := outcome_eq_stored.mp hstored
    refine absurd ?_ (hnot (a.received.patch exec))
    exact (congrArg Attempt.outcome (mem_handleMessage h).1).trans
      (outcome_eq_stored.mpr ⟨hnext, exec, hexec, hhead, rfl⟩)
  obtain ⟨exec, hexec, rfl, hafter⟩ := stored_of_mem h hstored
  refine ⟨?_, fun hextends hconfirms => (exact_iff hexec).mpr ⟨hextends, ?_⟩⟩
  · rw [hafter]
    exact AList.lookup_insert _
  obtain ⟨exec', hexec', hcarries⟩ := hconfirms
  cases hexec.symm.trans hexec'
  exact hcarries

/-! ### Blocks with a right and with a wrong header -/

def idleNode : NodeDb := ⟨(idleChain 1).db, AList.insert 0 ⟨idleParent 1, [], []⟩ ∅⟩

def emptyBlock : WireBlock := ⟨(idleCandidate 1).header, [], []⟩

def sealedBlock : WireBlock :=
  match executeOn .idle idleNode none emptyBlock with
  | .ok exec => emptyBlock.patch exec
  | .error _ => emptyBlock

def misstatedBlock : WireBlock :=
  { emptyBlock with header := { emptyBlock.header with parentHash := 1, stateRoot := 2 } }

theorem head_idleNode : idleNode.head = some ⟨idleParent 1, [], []⟩ := AList.lookup_insert _

theorem sealed_block_exact : ∃ a stored, a ∈ handleMessage .idle idleNode (.block sealedBlock) ∧
      a.outcome = .stored stored ∧ a.Exact .idle stored := by
  obtain ⟨a, stored, ha, hstored, hbefore, hreceived, -⟩ :=
    exists_stored .idle idleNode sealedBlock (fun _ _ => True) (by decide +kernel)
  refine ⟨a, stored, ha, hstored, ((import_exact_iff ha).2.1 stored hstored).2 ?_ ?_⟩ <;>
    rw [hbefore, hreceived]
  · exact ⟨_, head_idleNode, by decide +kernel⟩
  · unfold NodeDb.Confirms
    decide +kernel

/-- The misstated block is stored: with another state root than it came with, and on top of
a head that is not its parent. -/
theorem misstated_block_stored :
    ∃ a stored, a ∈ handleMessage .idle idleNode (.block misstatedBlock) ∧
      a.outcome = .stored stored ∧ stored ≠ a.received ∧ ¬ a.Exact .idle stored ∧
      ∀ head, a.before.head = some head → stored.header.parentHash ≠ head.header.hash := by
  obtain ⟨a, stored, ha, hstored, hbefore, hreceived, hroot, hparent⟩ :=
    exists_stored .idle idleNode misstatedBlock
      (fun _ stored => stored.header.stateRoot ≠ 2 ∧
        stored.header.parentHash ≠ (idleParent 1).hash) (by decide +kernel)
  have hdiffer : stored ≠ a.received := by
    intro hsame
    rw [hsame, hreceived] at hroot
    exact hroot rfl
  refine ⟨a, stored, ha, hstored, hdiffer, fun hexact => hdiffer hexact.received, ?_⟩
  intro head hhead
  rw [hbefore, head_idleNode] at hhead
  cases hhead
  exact hparent

end ZbxChain
