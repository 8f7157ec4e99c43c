import ZbxChain.Execution.StakingRuns
import ZbxChain.Node.Import
import ZbxChain.Node.ValidatorSync
import ZbxChain.Storage.SlashBurns

/-!
# Two ways to commit a block

`do_commit` of `node/src/consensus.rs`, as far as it touches the storage, the validator set and the
seed of the epoch, beside the import of the same block from a peer. The driver settles slashes
first and executes with its validator set; the import does neither.
-/

namespace ZbxChain

open BlockProducer SlashingPipeline StakingLedger

/-! ## The driver -/

/-- The parts of `ConsensusDriver` that a commit writes to and that outlive it. The node
gives the pipeline and the driver the same validator set. -/
structure Driver where
  cfg : ConsensusConfig
  node : NodeDb
  epochSeed : H256
  vs : Option ValidatorSet
  pipeline : Option SlashingPipeline

abbrev DriverM := EStateM (Fault String) Driver

def validateEpochSeed (height : UInt64) (headerSeed : Option H256) (localSeed : H256)
    (epochLength : UInt64) : Except String Unit :=
  let isEpochStart := 0 < height ∧ height % epochLength = 0
  let start := "consensus-invalid block at height " ++ toString height ++ ": "
  match headerSeed with
  | some seed =>
    if isEpochStart then
      if seed ≠ localSeed then
        .error (start ++ "header.epoch_seed = " ++ H256.debug seed ++
          " disagrees with locally-rotated seed = " ++ H256.debug localSeed ++
          ". Light-client verification would split — rejecting.")
      else .ok ()
    else
      .error (start ++ "header.epoch_seed = " ++ H256.debug seed ++
        " set on a non-boundary block (epoch_length = " ++ toString epochLength ++
        "). Pass-19 invariant violated — rejecting.")
  | none =>
    if isEpochStart ∧ localSeed ≠ 0 then
      .error (start ++ "epoch-start block missing header.epoch_seed while local rotated seed = " ++
        H256.debug localSeed ++
        " is non-zero. Light clients would reject — rejecting at full node.")
    else .ok ()

def AppliedSlash.burn (a : AppliedSlash) : Address × Nat := (a.offender, a.burnWei)

namespace Driver

def sharing (vs : Option ValidatorSet) (p : SlashingPipeline) : SlashingPipeline :=
  match vs with
  | some vs => { p with validators := vs }
  | none => p

/-- Settle the slashes that are due, in the pipeline and then in the accounts. A pipeline
that fails ends the node. -/
def settleSlashes (height : UInt64) : DriverM Unit := do
  let d ← get
  match d.pipeline with
  | none => return ()
  | some p =>
    match tickFinalize height (sharing d.vs p) with
    | .ok applied p =>
      set { d with
        pipeline := some p
        vs := d.vs.map fun _ => p.validators
        node := { d.node with
          db := d.node.db.applySlashBurns (applied.map AppliedSlash.burn) } }
    | .error _ _ => throw .panic

def seedInput (hash : H256) (nextEpoch : UInt64) (prevSeed : H256) : Bytes :=
  hash.toBytes ++ beBytes 8 nextEpoch.toNat ++ prevSeed.toBytes

def rotatedSeed (hash : H256) (nextEpoch : UInt64) (prevSeed : H256) : H256 :=
  keccak256 (seedInput hash nextEpoch prevSeed)

/-- What follows the commit: the seed rotates after the last block of an epoch, and the
validator set is brought up to date. -/
def finish (height : UInt64) (c : CommittedBlock) (d : Driver) : Driver :=
  let epochLength := d.cfg.epochLength
  { d with
    node := c.node
    epochSeed :=
      if (height + 1) % epochLength = 0 then
        rotatedSeed c.block.header.hash ((height + 1) / epochLength) d.epochSeed
      else d.epochSeed
    vs := c.vs.map (d.cfg.syncValidatorSet height (height / epochLength)) }

/-- The committed block is returned, as it is sent to the peers. An epoch length of zero
ends the node. -/
def doCommit (E : Engines) (block : WireBlock) : DriverM WireBlock := do
  let d ← get
  let height := block.header.number
  if d.cfg.epochLength = 0 then throw .panic
  match validateEpochSeed height block.header.epochSeed d.epochSeed d.cfg.epochLength with
  | .error e => throw (.err e)
  | .ok () =>
    settleSlashes height
    let d ← get
    match executeAndCommitInner E d.node d.vs block with
    | .error fault => throw fault
    | .ok c =>
      set (d.finish height c)
      return c.block

theorem doCommit_ok {E : Engines} {block committed : WireBlock} {d d' : Driver}
    (h : doCommit E block d = .ok committed d') :
    ∃ settled c, settleSlashes block.header.number d = .ok () settled ∧
      executeAndCommitInner E settled.node settled.vs block = .ok c ∧
      d' = settled.finish block.header.number c ∧ committed = c.block := by
  unfold doCommit at h
  rw [estate_bind_ok (estate_get d)] at h
  split at h
  · cases h
  split at h
  · cases h
  dsimp only at h
  cases hsettle : settleSlashes block.header.number d with
  | error e settled =>
    rw [estate_bind_error hsettle] at h
    cases h
  | ok _ settled =>
    rw [estate_bind_ok hsettle, estate_bind_ok (estate_get settled)] at h
    cases hcommit : executeAndCommitInner E settled.node settled.vs block with
    | error fault =>
      rw [hcommit] at h
      cases h
    | ok c =>
      rw [hcommit] at h
      cases h
      exact ⟨settled, c, rfl, hcommit, rfl, rfl⟩

/-- No slash is due at a height: none is confirmed and not yet burnt, and none is ready to
be confirmed. -/
def NoSlashDue (d : Driver) (height : UInt64) : Prop :=
  ∀ p, d.pipeline = some p → p.store.loadRecordsWithUnappliedBurn = [] ∧
    p.store.loadRecordsReadyToFinalize height = []

variable {height : UInt64}

theorem tickFinalize_idle {p : SlashingPipeline} (hburn : p.store.loadRecordsWithUnappliedBurn = [])
    (hready : p.store.loadRecordsReadyToFinalize height = []) :
    tickFinalize height p = .ok [] p := by
  have hreplay : forRecords (replayBurn height)
      p.store.loadRecordsWithUnappliedBurn p = .ok [] p := by
    rw [hburn]
    rfl
  have hfinal : forRecords (finalizeRecord height)
      (p.store.loadRecordsReadyToFinalize height) p = .ok [] p := by
    rw [hready]
    rfl
  unfold tickFinalize
  rw [estate_bind_ok (estate_get p), estate_bind_ok hreplay, estate_bind_ok (estate_get p),
    estate_bind_ok hfinal]
  rfl

theorem store_sharing (vs : Option ValidatorSet) (p : SlashingPipeline) :
    (sharing vs p).store = p.store := by
  cases vs <;> rfl

theorem settleSlashes_idle {d settled : Driver} (hidle : d.NoSlashDue height)
    (h : settleSlashes height d = .ok () settled) : settled.node = d.node ∧ settled.vs = d.vs := by
  unfold settleSlashes at h
  rw [estate_bind_ok (estate_get d)] at h
  cases hp : d.pipeline with
  | none =>
    rw [hp] at h
    cases h
    exact ⟨rfl, rfl⟩
  | some p =>
    obtain ⟨hburn, hready⟩ := hidle p hp
    rw [hp] at h
    dsimp only at h
    rw [tickFinalize_idle (by rw [store_sharing, hburn]) (by rw [store_sharing, hready])] at h
    cases h
    refine ⟨rfl, ?_⟩
    cases d.vs <;> rfl

end Driver

/-! ## Execution without staking calls -/

section

variable {E : Engines} {header : BlockHeader} {db : ZbxDb}

def withVs (vs : Option ValidatorSet) (st : BlockState) : BlockState := { st with vs := vs }

variable {block : Block} {st st' : BlockState} {txs : List SignedTransaction}
  {tx : SignedTransaction} {DB : Type}

variable (vs : Option ValidatorSet)

theorem routeTx_withVs (htx : isStakingDestination tx.tx.dest = false) (st : BlockState) :
    routeTx E tx header db (withVs vs st) =
      (routeTx E tx header db (withVs none st)).map fun r => (r.1, withVs vs r.2) := by
  unfold routeTx
  rw [htx]
  dsimp only [withVs]
  cases executeTx E tx header st.view <;> rfl

theorem executeOne_withVs (htx : isStakingDestination tx.tx.dest = false) (st : BlockState) :
    executeOne E header db (withVs vs st) tx =
      (executeOne E header db (withVs none st) tx).map (withVs vs) := by
  unfold executeOne
  rw [routeTx_withVs vs htx]
  cases routeTx E tx header db (withVs none st) <;> rfl

theorem executeOne_noVs (hvs : st.vs = none) (h : executeOne E header db st tx = .ok st') :
    st'.vs = none ∧ st'.delta = st.delta := by
  obtain ⟨⟨result, routed⟩, hroute, h⟩ := bind_eq_ok.mp h
  cases h
  unfold routeTx at hroute
  rw [hvs] at hroute
  split at hroute
  · rename_i heq
    cases heq
  obtain ⟨⟨r, view⟩, -, hroute⟩ := bind_eq_ok.mp hroute
  cases hroute
  exact ⟨rfl, rfl⟩

theorem executeTxs_noVs (hvs : st.vs = none) (h : executeTxs E header db st txs = .ok st') :
    st'.vs = none ∧ st'.delta = st.delta := by
  induction txs generalizing st with
  | nil =>
    cases h
    exact ⟨hvs, rfl⟩
  | cons tx rest ih =>
    obtain ⟨next, hone, hrest⟩ := bind_eq_ok.mp h
    obtain ⟨hnext, hdelta⟩ := executeOne_noVs hvs hone
    obtain ⟨hlast, hdelta'⟩ := ih hnext hrest
    exact ⟨hlast, hdelta'.trans hdelta⟩

theorem executeTxs_withVs (htxs : ∀ tx ∈ txs, isStakingDestination tx.tx.dest = false)
    (st : BlockState) : executeTxs E header db (withVs vs st) txs =
      (executeTxs E header db (withVs none st) txs).map (withVs vs) := by
  induction txs generalizing st with
  | nil => rfl
  | cons tx rest ih =>
    have hone : executeOne E header db (withVs vs st) tx =
        (executeOne E header db (withVs none st) tx).map (withVs vs) :=
      executeOne_withVs vs (htxs tx List.mem_cons_self) st
    unfold executeTxs
    rw [hone]
    cases hnext : executeOne E header db (withVs none st) tx with
    | error e => rfl
    | ok next =>
      have hnone : withVs none next = next := by
        have hvs : next.vs = none := (executeOne_noVs rfl hnext).1
        unfold withVs
        rw [← hvs]
      have hrest := ih (fun tx' htx' => htxs tx' (List.mem_cons_of_mem _ htx')) next
      rw [hnone] at hrest
      exact hrest

theorem executeBlock_withVs [TrieDB DB]
    (htxs : ∀ tx ∈ block.transactions, isStakingDestination tx.tx.dest = false) (trieDb : DB)
    (view : StateView) : executeBlock E block db vs trieDb view =
      (executeBlock E block db none trieDb view).map fun exec => { exec with vs := vs } := by
  have hrun : executeTxs E block.header db (.start view vs) block.transactions =
      (executeTxs E block.header db (.start view none) block.transactions).map (withVs vs) :=
    executeTxs_withVs vs htxs (.start view none)
  unfold executeBlock executeBody
  split
  · rfl
  rw [hrun]
  cases executeTxs E block.header db (.start view none) block.transactions with
  | error e => rfl
  | ok st =>
    dsimp only [Except.map, bind, Except.bind, pure, Except.pure, withVs]
    split <;> rfl

theorem executeBlock_delta [TrieDB DB] {trieDb : DB} {view : StateView} {exec : ExecutionResult}
    (h : executeBlock E block db none trieDb view = .ok exec) : exec.stakingDelta = .new := by
  obtain ⟨st, root, hbody, -, rfl⟩ := executeBlock_ok h
  obtain ⟨ran, hrun, rfl⟩ := executeBody_ok hbody
  exact (executeTxs_noVs rfl hrun).2

end

/-! ## The outputs in a header -/

def WireBlock.withOutputs (block : WireBlock) (gasUsed : UInt64) (stateRoot : H256)
    (roots : Commitments) : WireBlock :=
  { block with
    header := sealHeader block.header
      { block.header.toBlockHeader with gasUsed := gasUsed, stateRoot := stateRoot } roots }

section

variable (gasUsed : UInt64) (stateRoot : H256) (roots : Commitments)

theorem executeTxs_outputs (E : Engines) (header : BlockHeader) (db : ZbxDb) (st : BlockState)
    (txs : List SignedTransaction) :
    executeTxs E { header with gasUsed := gasUsed, stateRoot := stateRoot } db st txs =
      executeTxs E header db st txs := by
  induction txs generalizing st with
  | nil => rfl
  | cons tx rest ih =>
    exact congrArg (executeOne E header db st tx >>= ·) (funext ih)

theorem executeOn_withOutputs (E : Engines) (node : NodeDb) (vs : Option ValidatorSet)
    (block : WireBlock) : executeOn E node vs (block.withOutputs gasUsed stateRoot roots) =
      executeOn E node vs block := by
  have hbody : executeBody E (block.withOutputs gasUsed stateRoot roots).toBlock node.db vs
      (seededView node.db block.toBlock) =
      executeBody E block.toBlock node.db vs (seededView node.db block.toBlock) := by
    have htxs := executeTxs_outputs gasUsed stateRoot E block.toBlock.header node.db
      (.start (seededView node.db block.toBlock) vs) block.toBlock.transactions
    unfold executeBody
    rw [← htxs]
    rfl
  show executeBlock E (block.withOutputs gasUsed stateRoot roots).toBlock node.db vs
    (ZbxDbTrieAdapter.new node.db) (seededView node.db block.toBlock) = _
  unfold executeOn executeBlock
  rw [hbody]

end

/-! ## The two ways -/

def ZbxDb.ledger (db : ZbxDb) : Map (Address × Address) Nat × Map (UInt64 × Address × Address) Nat :=
  (db.delegations, db.unbonding)

theorem ledger_store {node : NodeDb} {block : WireBlock} {exec : ExecutionResult}
    (h : exec.stakingDelta = .new) : (node.store block exec).db.ledger = node.db.ledger := by
  have hempty : StakingDelta.new.isEmpty = true := rfl
  unfold NodeDb.store persist flushStaking
  rw [h, hempty, if_pos rfl, putAccounts_eq]
  rfl

variable {E : Engines} {d d' : Driver} {block committed : WireBlock}

theorem commit_as_import {settled : NodeDb} {vs : Option ValidatorSet} {c : CommittedBlock}
    (hplain : vs = none ∨ ∀ t ∈ block.transactions, isStakingDestination t.tx.dest = false)
    (h : executeAndCommitInner E settled vs block = .ok c) :
    ∃ exec, executeOn E settled none block = .ok exec ∧ c.block = block.patch exec ∧
      c.node = settled.store (block.patch exec) exec := by
  obtain ⟨exec, hexec, -, rfl⟩ := executeAndCommitInner_ok.mp h
  rcases hplain with rfl | htxs
  · exact ⟨exec, hexec, rfl, rfl⟩
  have htxs' : ∀ tx ∈ block.toBlock.transactions, isStakingDestination tx.tx.dest = false := by
    intro tx htx
    obtain ⟨t, ht, rfl⟩ := List.mem_map.mp htx
    exact htxs t ht
  unfold executeOn at hexec ⊢
  rw [executeBlock_withVs vs htxs'] at hexec
  cases hnone : executeBlock E block.toBlock settled.db none (ZbxDbTrieAdapter.new settled.db)
      (seededView settled.db block.toBlock) with
  | error e =>
    rw [hnone] at hexec
    cases hexec
  | ok exec' =>
    rw [hnone] at hexec
    cases hexec
    exact ⟨exec', rfl, rfl, rfl⟩

/-- A driver commits a block and a node with the same storage imports it, possibly with other
outputs in its header. The import leaves the staking ledger alone, so the two ledgers agree
exactly when the commit left it alone too. When no slash is due and, as far as the driver has a
validator set, the block has no transaction to the staking precompile, the import succeeds, and
the two end with the same storage and the same block. -/
theorem replicas_agree (gasUsed : UInt64) (stateRoot : H256) (roots : Commitments)
    {a : Attempt} (hcommit : Driver.doCommit E block d = .ok committed d')
    (ha : a ∈ handleMessage E d.node (.block (block.withOutputs gasUsed stateRoot roots))) :
    (a.after.db.ledger = d'.node.db.ledger ↔ d'.node.db.ledger = d.node.db.ledger) ∧
      (0 < block.header.number → d.NoSlashDue block.header.number →
        (d.vs = none ∨ ∀ t ∈ block.transactions, isStakingDestination t.tx.dest = false) →
        a.after = d'.node ∧ a.outcome = .stored committed) := by
  have hattempt := List.mem_singleton.mp ha
  have hbefore : a.before = d.node := by rw [hattempt, importBlock_before]
  have hreceived : a.received = block.withOutputs gasUsed stateRoot roots := by
    rw [hattempt, importBlock_received]
  constructor
  · have hledger : a.after.db.ledger = d.node.db.ledger := by
      by_cases hstored : ∃ stored, a.outcome = .stored stored
      · obtain ⟨stored, hstored⟩ := hstored
        obtain ⟨exec, hexec, -, hafter⟩ := stored_of_mem ha hstored
        rw [hafter, ledger_store (executeBlock_delta hexec), hbefore]
      · rw [after_of_not_stored ha (not_exists.mp hstored), hbefore]
    rw [hledger]
    exact eq_comm
  intro hpositive hidle hplain
  obtain ⟨settled, c, hsettle, hinner, rfl, rfl⟩ := Driver.doCommit_ok hcommit
  obtain ⟨hnode, hvs⟩ := Driver.settleSlashes_idle hidle hsettle
  obtain ⟨-, -, hhead, -⟩ := executeAndCommitInner_ok.mp hinner
  rw [← hvs] at hplain
  obtain ⟨exec, hexec, hblock, hwrites⟩ := commit_as_import hplain hinner
  rw [hnode] at hexec hwrites hhead
  have hstored : a.outcome = .stored (block.patch exec) := by
    rw [hattempt]
    refine outcome_eq_stored.mpr ⟨UInt64.toNat_inj.mp ?_, exec, ?_, hhead, rfl⟩
    · have hlt := block.header.number.toNat_lt
      rw [UInt64.toNat_add, hhead]
      rw [UInt64.lt_iff_toNat_lt] at hpositive
      show block.header.number.toNat = (block.header.number.toNat - 1 + 1) % 2 ^ 64
      rw [UInt64.toNat_zero] at hpositive
      omega
    · rw [executeOn_withOutputs, hexec]
  obtain ⟨exec', hexec', -, hafter⟩ := stored_of_mem ha hstored
  rw [hbefore, hreceived, executeOn_withOutputs, hexec] at hexec'
  cases hexec'
  rw [hbefore] at hafter
  exact ⟨hafter.trans hwrites.symm, by rw [hstored, hblock]⟩

/-! ### A transfer and a delegation -/

def transferDriver : Driver := ⟨⟨[], 10⟩, fundedNode, 0, some .new, none⟩

/-- The transfer ends alike on both ways. -/
theorem transfer_agrees : ∃ committed d' a,
      Driver.doCommit .idle (transferBlock ⟨1, 0, 0⟩) transferDriver = .ok committed d' ∧
      a ∈ handleMessage .idle fundedNode (.block (transferBlock ⟨1, 0, 0⟩)) ∧
      a.after = d'.node ∧ a.outcome = .stored committed := by
  obtain ⟨committed, d', hcommit, -⟩ := exists_of_okAny (p := fun _ _ => true)
    (r := Driver.doCommit .idle (transferBlock ⟨1, 0, 0⟩) transferDriver) (by decide +kernel)
  have ha := List.mem_singleton_self (importBlock .idle fundedNode (transferBlock ⟨1, 0, 0⟩))
  have hagree := replicas_agree (d := transferDriver) 0 0 ⟨0, 0, 0⟩ hcommit ha
  have hplain : ∀ t ∈ (transferBlock ⟨1, 0, 0⟩).transactions,
      isStakingDestination t.tx.dest = false := by decide
  have hidle : transferDriver.NoSlashDue (transferBlock ⟨1, 0, 0⟩).header.number := fun _ => nofun
  exact ⟨committed, d', _, hcommit, ha, hagree.2 (by decide) hidle (.inr hplain)⟩

def delegatorNode : NodeDb where
  db := (ZbxDb.empty.putAccount 2 { AccountState.default with balance := 1000000 }).putBlock
    ⟨(idleParent 1).toBlockHeader, []⟩
  blocks := AList.insert 0 ⟨idleParent 1, [], []⟩ ∅

def delegatorDriver : Driver :=
  ⟨⟨[], 10⟩, delegatorNode, 0,
    some (ValidatorSet.new.put 1 (ConsensusConfig.freshValidator (1, []) 0 0)), none⟩

def delegationBlock : WireBlock where
  header := candidateHeader (idleParent 1) idleConfig (some 2)
  transactions := [⟨{ (SignedTransaction.basic 2 0 (some stakingPrecompileAddr) 5 [3]).tx with
    txType := .dynamicFee }, ⟨0, 0, 0⟩, 2, 0⟩]
  uncles := []

def delegatedRoot : H256 := 0x79bbc3e077fc9c39ad696371ba96fdc78025c101605e6151720875cc6480e47b

/-- The driver records the delegation and charges for it. The import makes a plain transfer
of it: the balance of 2, the ledger and the state root all differ. -/
theorem delegation_diverges : ∃ committed d' a stored,
      Driver.doCommit sampleEngines delegationBlock delegatorDriver = .ok committed d' ∧
      a ∈ handleMessage sampleEngines delegatorNode (.block delegationBlock) ∧
      a.outcome = .stored stored ∧
      ((d'.node.db.getAccount 2).balance = 837963 ∧ d'.node.db.getDelegation 1 2 = 5) ∧
      ((a.after.db.getAccount 2).balance = 957963 ∧ a.after.db.getDelegation 1 2 = 0) ∧
      stored.header.stateRoot ≠ committed.header.stateRoot := by
  obtain ⟨committed, d', hcommit, hdriver⟩ := exists_of_okAny
    (p := fun (committed : WireBlock) (d : Driver) =>
      decide (((d.node.db.getAccount 2).balance = 837963 ∧ d.node.db.getDelegation 1 2 = 5) ∧
        committed.header.stateRoot = delegatedRoot))
    (r := Driver.doCommit sampleEngines delegationBlock delegatorDriver)
    (by decide +kernel)
  obtain ⟨a, stored, ha, hstored, -, -, himported, hother⟩ :=
    exists_stored sampleEngines delegatorNode delegationBlock
      (fun a stored => ((a.after.db.getAccount 2).balance = 957963 ∧
        a.after.db.getDelegation 1 2 = 0) ∧ stored.header.stateRoot ≠ delegatedRoot)
      (by decide +kernel)
  obtain ⟨hdriven, hroot⟩ := of_decide_eq_true hdriver
  rw [← hroot] at hother
  exact ⟨committed, d', a, stored, hcommit, ha, hstored, hdriven, himported, hother⟩

/-! ## The seed of the epoch -/

namespace Driver

variable {E : Engines} {genesis : H256} {epochLength : UInt64} {d e : Driver}
  {blocks since since' : List WireBlock}

end Driver

end ZbxChain
