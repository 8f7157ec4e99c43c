import ZbxChain.Mempool.Admission
import ZbxChain.Node.Commit

/-!
# Building a block and checking it

`build_candidate` of `node/src/block_producer.rs`, followed by a commit, against
`validate_against_parent`.
-/

namespace ZbxChain.BlockProducer

/-! ## Model -/

structure ProducerConfig where
  coinbase : Address
  gasLimit : UInt64
  produceEmptyBlocks : Bool

structure ChainDb where
  db : ZbxDb
  headers : Map UInt64 SealedHeader

/-- `sort_by` with the producer's comparison, which compares nonces of one sender and calls
all else equal. That is no order, so of the result only the elements are certain. -/
structure NonceSort where
  run : List SignedTransaction → List SignedTransaction
  perm : ∀ txs, (run txs).Perm txs

/-- The header over a parent; `clock` is the system time, `none` when it is before 1970. The
successors of number and time wrap. -/
def candidateHeader (parent : SealedHeader) (cfg : ProducerConfig) (clock : Option UInt64) :
    SealedHeader where
  parentHash := parent.hash
  uncleHash := 0
  coinbase := cfg.coinbase
  stateRoot := 0
  transactionsRoot := 0
  receiptsRoot := 0
  logsBloom := 0
  difficulty := 0
  number := parent.number + 1
  gasLimit := cfg.gasLimit
  gasUsed := 0
  timestamp := max (clock.getD (parent.timestamp + 1)) (parent.timestamp + 1)
  -- the text "zbx"
  extraData := [122, 98, 120]
  mixHash := 0
  nonce := 0
  baseFeePerGas := max parent.baseFeePerGas 1
  committeeSignature := []
  epoch := parent.epoch
  epochSeed := none

/-- `none` when there is nothing to include. -/
def buildCandidate (sort : NonceSort) (chain : ChainDb) (pool : TransactionPool)
    (cfg : ProducerConfig) (clock : Option UInt64) : Except String (Option SealedBlock) :=
  let parentNumber := chain.db.getLatestBlockNumber.getD 0
  match chain.headers.lookup parentNumber with
  | none => .error ("no block at height " ++ toString parentNumber)
  | some parent =>
    let txs := pool.selectTransactions cfg.gasLimit
    if txs.isEmpty && !cfg.produceEmptyBlocks then .ok none
    else .ok (some ⟨candidateHeader parent cfg clock, sort.run txs⟩)

structure Commitments where
  transactionsRoot : H256
  receiptsRoot : H256
  logsBloom : BitVec 2048

def sealHeader (header : SealedHeader) (executed : BlockHeader) (roots : Commitments) :
    SealedHeader :=
  { header with
    toBlockHeader := executed
    transactionsRoot := roots.transactionsRoot
    receiptsRoot := roots.receiptsRoot
    logsBloom := roots.logsBloom }

structure CommittedChild where
  block : SealedBlock
  chain : ChainDb
  vs : Option ValidatorSet

/-- `execute_and_commit` of a complete block. -/
def commitCandidate (E : Engines) (roots : Commitments) (chain : ChainDb)
    (vs : Option ValidatorSet) (block : SealedBlock) : Except (Fault String) CommittedChild := do
  let c ← executeAndCommit E chain.db vs block.toBlock
  let header := sealHeader block.header c.block.header roots
  return ⟨⟨header, c.block.transactions⟩, ⟨c.db, chain.headers.insert header.number header⟩, c.vs⟩

/-! ## Gas -/

variable {header : BlockHeader} {st st' : BlockState} {chain : ChainDb} {roots : Commitments}
  {c : CommittedChild} {E : Engines} {txs : List SignedTransaction} {clock : Option UInt64}
  {vs : Option ValidatorSet} {cfg : ProducerConfig} {block : SealedBlock} {parent : SealedHeader}
  {tx : SignedTransaction} {db : ZbxDb}

theorem routeTx_gasUsed {result : TxResult} (h : routeTx E tx header db st = .ok (result, st')) :
    result.gasUsed ≤ tx.tx.gasLimit.toNat ∧ st'.cumulativeGas = st.cumulativeGas := by
  unfold routeTx at h
  split at h
  · obtain ⟨⟨r, s⟩, hrun, h⟩ := bind_eq_ok.mp h
    cases h
    obtain ⟨run⟩ := executeStakingTx_ok hrun
    exact ⟨run.gasUsed_eq ▸ Nat.min_le_right _ _, rfl⟩
  obtain ⟨⟨r, view⟩, hrun, h⟩ := bind_eq_ok.mp h
  cases h
  obtain ⟨run⟩ := executeTx_ok hrun
  exact ⟨run.gasUsed_eq ▸ Nat.min_le_right _ _, rfl⟩

theorem executeOne_gasUsed (h : executeOne E header db st tx = .ok st') :
    st'.cumulativeGas ≤ st.cumulativeGas + tx.tx.gasLimit.toNat := by
  obtain ⟨⟨result, routed⟩, hroute, h⟩ := bind_eq_ok.mp h
  obtain ⟨hused, hsame⟩ := routeTx_gasUsed hroute
  cases h
  calc (routed.cumulativeGas + result.gasUsed) % 2 ^ 64
      ≤ routed.cumulativeGas + result.gasUsed := Nat.mod_le _ _
    _ ≤ st.cumulativeGas + tx.tx.gasLimit.toNat := by rw [hsame]; exact Nat.add_le_add_left hused _

theorem executeTxs_gasUsed (h : executeTxs E header db st txs = .ok st') :
    st'.cumulativeGas ≤ st.cumulativeGas + gasLimits txs := by
  induction txs generalizing st with
  | nil =>
    cases h
    exact Nat.le_add_right _ _
  | cons tx rest ih =>
    obtain ⟨next, hone, hrest⟩ := bind_eq_ok.mp h
    have hstep := executeOne_gasUsed hone
    have htail := ih hrest
    have hsum : gasLimits (tx :: rest) = tx.tx.gasLimit.toNat + gasLimits rest := by
      simp [gasLimits]
    omega

theorem executeBody_gasUsed {block : Block} {view : StateView}
    (h : executeBody E block db vs view = .ok st) : block.header.gasLimit.toNat ≤ blockGasLimit ∧
      st.cumulativeGas ≤ gasLimits block.transactions := by
  unfold executeBody at h
  split at h
  · cases h
  rename_i hlimit
  obtain ⟨ran, hrun, h⟩ := bind_eq_ok.mp h
  cases h
  refine ⟨Nat.not_lt.mp hlimit, ?_⟩
  have hused := executeTxs_gasUsed hrun
  rwa [show (BlockState.start view vs).cumulativeGas = 0 from rfl, Nat.zero_add] at hused

/-! ## The complete headers -/

theorem persist_blocks (db : ZbxDb) (block : Block) (exec : ExecutionResult) :
    (persist db (ZbxDbTrieAdapter.new db) block exec).blocks =
      db.blocks.insert block.header.number block := by
  unfold persist flushStaking
  rw [putAccounts_eq]
  split <;> rfl

theorem commitCandidate_ok (h : commitCandidate E roots chain vs block = .ok c) :
    ∃ exec, executeBlock E block.toBlock chain.db vs (ZbxDbTrieAdapter.new chain.db)
        (seededView chain.db block.toBlock) = .ok exec ∧ c.block.header =
        sealHeader block.header (patchHeader block.header.toBlockHeader exec) roots ∧
      c.chain.headers = chain.headers.insert block.header.number c.block.header ∧
      c.chain.db.blocks = chain.db.blocks.insert block.header.number c.block.toBlock := by
  obtain ⟨committed, hcommit, h⟩ := bind_eq_ok.mp h
  obtain ⟨exec, hexec, hblock, hdb⟩ := executeAndCommit_exec hcommit
  cases h
  refine ⟨exec, hexec, by rw [hblock]; rfl, by rw [hblock]; rfl, ?_⟩
  rw [hdb, persist_blocks, hblock]
  rfl

/-! ## The child of a stored block -/

theorem lt_max_succ (now parent : UInt64) :
    parent < max now (parent + 1) ↔ parent.toNat ≠ 2 ^ 64 - 1 := by
  have hparent := parent.toNat_lt
  have hnow := now.toNat_lt
  have hsucc : (parent + 1).toNat = (parent.toNat + 1) % 2 ^ 64 := UInt64.toNat_add parent 1
  show parent < (if now ≤ parent + 1 then parent + 1 else now) ↔ _
  split
  · rename_i hle
    rw [UInt64.le_iff_toNat_le] at hle
    rw [UInt64.lt_iff_toNat_lt]
    omega
  rename_i hgt
  rw [UInt64.le_iff_toNat_le] at hgt
  rw [UInt64.lt_iff_toNat_lt]
  omega

theorem buildCandidate_some {sort : NonceSort} {pool : TransactionPool} {candidate : SealedBlock}
    (hparent : chain.headers.lookup (chain.db.getLatestBlockNumber.getD 0) = some parent)
    (h : buildCandidate sort chain pool cfg clock = .ok (some candidate)) : candidate =
      ⟨candidateHeader parent cfg clock, sort.run (pool.selectTransactions cfg.gasLimit)⟩ := by
  unfold buildCandidate at h
  dsimp only at h
  rw [hparent] at h
  dsimp only at h
  split at h
  · cases h
  · cases h
    rfl

theorem gasLimits_perm {txs' : List SignedTransaction} (h : txs.Perm txs') :
    gasLimits txs = gasLimits txs' :=
  (h.map _).sum_eq

def SteadyParent (parent : SealedHeader) : Prop :=
  parent.timestamp.toNat ≠ 2 ^ 64 - 1 ∧
    ((parent.number = 0 ∧ parent.baseFeePerGas = 0) ∨
      (0 < parent.baseFeePerGas ∧
        FeeSteady parent.baseFeePerGas.toNat parent.gasUsed.toNat parent.gasLimit.toNat))

theorem validChild_iff {header : SealedHeader} {exec : ExecutionResult}
    (hheader : header = sealHeader (candidateHeader parent cfg clock)
      (patchHeader (candidateHeader parent cfg clock).toBlockHeader exec) roots)
    (hused : header.gasUsed ≤ header.gasLimit) (hlimit : header.gasLimit.toNat ≤ blockGasLimit) :
    header.ValidChild parent ↔ SteadyParent parent := by
  have htime := lt_max_succ (clock.getD (parent.timestamp + 1)) parent.timestamp
  have hfee := computeEip1559BaseFee_carried parent.baseFeePerGas parent.gasUsed parent.gasLimit
  have htime_eq : header.timestamp =
      max (clock.getD (parent.timestamp + 1)) (parent.timestamp + 1) := by rw [hheader]; rfl
  have hfee_eq : header.baseFeePerGas = max parent.baseFeePerGas 1 := by rw [hheader]; rfl
  constructor
  · intro hv
    refine ⟨htime.mp (htime_eq ▸ hv.timestamp), ?_⟩
    rcases hv.baseFee with hzero | hexpected
    · exact .inl hzero
    · exact .inr (hfee.mp (hfee_eq ▸ hexpected))
  rintro ⟨hclock, hsteady⟩
  refine ⟨by rw [hheader]; rfl, by rw [hheader]; rfl, ?_, hused, hlimit, ?_, ?_⟩
  · rw [htime_eq]
    exact htime.mpr hclock
  · rw [hheader]
    exact Nat.le_of_ble_eq_true rfl
  rcases hsteady with hzero | hcarried
  · exact .inl hzero
  · exact .inr (by rw [hfee_eq]; exact hfee.mpr hcarried)

theorem child_valid_iff (E : Engines) (roots : Commitments) (sort : NonceSort) (chain : ChainDb)
    (vs : Option ValidatorSet) (pool : TransactionPool) (cfg : ProducerConfig)
    (clock : Option UInt64) {parent : SealedHeader} {candidate : SealedBlock} {c : CommittedChild}
    (hparent : chain.headers.lookup (chain.db.getLatestBlockNumber.getD 0) = some parent)
    (hbuild : buildCandidate sort chain pool cfg clock = .ok (some candidate))
    (hcommit : commitCandidate E roots chain vs candidate = .ok c) :
    c.block.header.validateAgainstParent parent = .ok () ↔ SteadyParent parent := by
  have hcandidate := buildCandidate_some hparent hbuild
  subst hcandidate
  obtain ⟨exec, hexec, hheader, -, -⟩ := commitCandidate_ok hcommit
  obtain ⟨st, root, hbody, -, rfl⟩ := executeBlock_ok hexec
  obtain ⟨hlimit, hused⟩ := executeBody_gasUsed hbody
  have hlimit' : cfg.gasLimit.toNat ≤ blockGasLimit := hlimit
  have hselected : gasLimits (sort.run (pool.selectTransactions cfg.gasLimit)) ≤
      cfg.gasLimit.toNat := by
    rw [gasLimits_perm (sort.perm _)]
    exact pool.gasLimits_selectTransactions hlimit'
  have hfits : st.cumulativeGas ≤ cfg.gasLimit.toNat := hused.trans hselected
  have hwithin : c.block.header.gasUsed ≤ c.block.header.gasLimit := by
    rw [hheader, UInt64.le_iff_toNat_le]
    show (UInt64.ofNat st.cumulativeGas).toNat ≤ cfg.gasLimit.toNat
    rw [UInt64.toNat_ofNat']
    exact (Nat.mod_le _ _).trans hfits
  rw [SealedHeader.validateAgainstParent_ok]
  refine validChild_iff hheader hwithin ?_
  rw [hheader]
  exact hlimit'

/-! ## An idle parent -/

variable (baseFee : UInt64)

def idleParent : SealedHeader where
  parentHash := 0
  uncleHash := 0
  coinbase := 0xcb
  stateRoot := 0
  transactionsRoot := 0
  receiptsRoot := 0
  logsBloom := 0
  difficulty := 1
  number := 0
  gasLimit := 30000000
  gasUsed := 0
  timestamp := 1
  extraData := []
  mixHash := 0
  nonce := 0
  baseFeePerGas := baseFee
  committeeSignature := []
  epoch := 0
  epochSeed := none

def idleChain : ChainDb where
  db := ZbxDb.empty.putBlock ⟨(idleParent baseFee).toBlockHeader, []⟩
  headers := AList.insert 0 (idleParent baseFee) ∅

def idleConfig : ProducerConfig := ⟨0xcb, 30000000, true⟩

def keepOrder : NonceSort := ⟨id, fun _ => .refl _⟩

def idleCandidate : SealedBlock :=
  ⟨candidateHeader (idleParent baseFee) idleConfig (some 2), []⟩

theorem buildCandidate_idle :
    buildCandidate keepOrder (idleChain baseFee) ⟨[]⟩ idleConfig (some 2) =
      .ok (some (idleCandidate baseFee)) := by
  unfold buildCandidate
  have hlookup : (idleChain baseFee).headers.lookup
      ((idleChain baseFee).db.getLatestBlockNumber.getD 0) = some (idleParent baseFee) :=
    AList.lookup_insert _
  dsimp only
  rw [hlookup]
  rfl

/-- With a base fee of 7 the child of an idle parent passes the checks. -/
theorem child_valid_seven : ∃ c,
    commitCandidate .idle ⟨0, 0, 0⟩ (idleChain 7) none (idleCandidate 7) = .ok c ∧
      c.block.header.validateAgainstParent (idleParent 7) = .ok () := by
  refine exists_ok (by decide +kernel) fun c hcommit => ?_
  have hparent : (idleChain 7).headers.lookup ((idleChain 7).db.getLatestBlockNumber.getD 0) =
      some (idleParent 7) := AList.lookup_insert _
  have hsteady : SteadyParent (idleParent 7) :=
    ⟨by decide, .inr ⟨by decide, .inr (.inr ⟨by decide, .inl (by decide)⟩)⟩⟩
  exact (child_valid_iff .idle ⟨0, 0, 0⟩ keepOrder (idleChain 7) none ⟨[]⟩ idleConfig
    (some 2) hparent (buildCandidate_idle 7) hcommit).mpr hsteady

/-- With a base fee of 8 it does not: the producer keeps the 8, the checks ask for 7. -/
theorem child_rejected_eight : ∃ c,
    buildCandidate keepOrder (idleChain 8) ⟨[]⟩ idleConfig (some 2) = .ok (some (idleCandidate 8)) ∧
    commitCandidate .idle ⟨0, 0, 0⟩ (idleChain 8) none (idleCandidate 8) = .ok c ∧
      c.block.header.validateAgainstParent (idleParent 8) =
        .error (.err (.consensus "base_fee_per_gas mismatch at block 1: expected 7, got 8")) := by
  rw [exists_and_left]
  exact ⟨buildCandidate_idle 8, by decide +kernel⟩

end ZbxChain.BlockProducer
