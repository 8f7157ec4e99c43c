import ZbxChain.Execution.Executor

/-!
# What a signature binds

Two transactions with one signing hash, and what execution makes of them.
-/

namespace ZbxChain

open SignedTransaction

/-! ## The fields that a signature may leave out -/

def Transaction.withUnsigned (tx : Transaction) (tip : UInt64)
    (accessList : List (Address × List H256)) : Transaction :=
  { tx with maxPriorityFeePerGas := tip, accessList := accessList }

def accessListGas (accessList : List (Address × List H256)) : Nat :=
  accessList.length * 2400 + (accessList.map fun entry => entry.2.length * 1900).sum

section

variable {tx : Transaction} {tip : UInt64} {accessList : List (Address × List H256)}

variable (hgas : (tx.withUnsigned tip accessList).intrinsicGas = tx.intrinsicGas)

include hgas

theorem preflight_unsigned (sender : Address) (hash : H256) (view : StateView) :
    preflight ⟨tx.withUnsigned tip accessList, sender, hash⟩ view =
      preflight ⟨tx, sender, hash⟩ view := by
  unfold preflight
  rw [hgas]
  rfl

theorem forwardedGas_unsigned :
    forwardedGas (tx.withUnsigned tip accessList) = forwardedGas tx := by
  unfold forwardedGas
  rw [hgas]
  rfl

theorem gasCharged_unsigned (used : Nat) :
    gasCharged (tx.withUnsigned tip accessList) used = gasCharged tx used := by
  unfold gasCharged
  rw [hgas]
  rfl

theorem runTarget_unsigned (E : Engines) (sender : Address) (hash : H256) (header : BlockHeader)
    (target : CallTarget) (view : StateView) :
    runTarget E ⟨tx.withUnsigned tip accessList, sender, hash⟩ header target view =
      runTarget E ⟨tx, sender, hash⟩ header target view := by
  have hforward := forwardedGas_unsigned hgas
  unfold runTarget runPrecompile runZvm runEvm zvmContext evmContext
  rw [hforward]
  rfl

variable (E : Engines) {sender : Address} {hash : H256} {header : BlockHeader} (view : StateView)
  (hprice : effectiveGasPrice ⟨tx.withUnsigned tip accessList, sender, hash⟩
      header.baseFeePerGas.toNat = effectiveGasPrice ⟨tx, sender, hash⟩ header.baseFeePerGas.toNat)

include hprice

theorem executeTx_unsigned :
    executeTx E ⟨tx.withUnsigned tip accessList, sender, hash⟩ header view =
      executeTx E ⟨tx, sender, hash⟩ header view := by
  unfold executeTx
  rw [preflight_unsigned hgas]
  refine bind_congr fun debited => ?_
  dsimp only
  rw [runTarget_unsigned hgas, hprice]
  refine bind_congr fun ran => ?_
  rw [gasCharged_unsigned hgas]
  rfl

theorem executeStakingTx_unsigned (db : ZbxDb) (vs : ValidatorSet) (delta : StakingDelta) :
    executeStakingTx E ⟨tx.withUnsigned tip accessList, sender, hash⟩ header db vs delta view =
      executeStakingTx E ⟨tx, sender, hash⟩ header db vs delta view := by
  unfold executeStakingTx
  rw [preflight_unsigned hgas]
  refine bind_congr fun debited => ?_
  dsimp only
  rw [hprice, gasCharged_unsigned hgas]
  rfl

end

theorem min_sub_eq_iff {tip tip' cap : Nat} :
    (∀ base, base + min tip' (cap - base) = base + min tip (cap - base)) ↔
      min tip' cap = min tip cap := by
  constructor
  · intro h
    have hzero := h 0
    rwa [Nat.zero_add, Nat.zero_add, Nat.sub_zero] at hzero
  · intro h base
    omega

namespace TypedTransaction

/-! ## Two transactions -/

def sign (t : TypedTransaction) (sender : Address) (hash : H256) : SignedTransaction :=
  ⟨t.toTransaction, sender, hash⟩

structure SameExecution (t u : TypedTransaction) : Prop where
  price : ∀ sender hash baseFee,
    (t.sign sender hash).effectiveGasPrice baseFee = (u.sign sender hash).effectiveGasPrice baseFee
  intrinsicGas : t.intrinsicGas = u.intrinsicGas
  execute : ∀ E sender hash header view,
    executeTx E (t.sign sender hash) header view = executeTx E (u.sign sender hash) header view
  executeStaking : ∀ E sender hash header db vs delta view,
    executeStakingTx E (t.sign sender hash) header db vs delta view =
      executeStakingTx E (u.sign sender hash) header db vs delta view

/-- What the signature leaves out is read alike: the tip up to the fee cap, unless it is
signed, and the gas for the access list, unless that is signed. -/
def AlikeUnsigned (t u : TypedTransaction) : Prop :=
  (t.txType = .dynamicFee ∨
    min t.maxPriorityFeePerGas.toNat t.maxFeePerGas.toNat =
      min u.maxPriorityFeePerGas.toNat u.maxFeePerGas.toNat) ∧
  (t.txType ≠ .legacy ∨ accessListGas t.accessList = accessListGas u.accessList)

variable {t u : TypedTransaction}

theorem SameSigned.eq_withUnsigned (h : SameSigned t u) :
    t.toTransaction = u.toTransaction.withUnsigned t.maxPriorityFeePerGas t.accessList := by
  obtain ⟨-, hnonce, hfee, hgas, hdest, hvalue, hdata, hchain, -, -⟩ := h
  unfold Transaction.withUnsigned
  rw [← hnonce, ← hfee, ← hgas, ← hdest, ← hvalue, ← hdata, ← hchain]

theorem SameSigned.price_iff (h : SameSigned t u) :
    (∀ sender hash baseFee, (t.sign sender hash).effectiveGasPrice baseFee =
        (u.sign sender hash).effectiveGasPrice baseFee) ↔
      min t.maxPriorityFeePerGas.toNat t.maxFeePerGas.toNat =
        min u.maxPriorityFeePerGas.toNat u.maxFeePerGas.toNat := by
  have hprice := @min_sub_eq_iff u.maxPriorityFeePerGas.toNat t.maxPriorityFeePerGas.toNat
    u.maxFeePerGas.toNat
  unfold effectiveGasPrice sign
  dsimp only
  rw [h.maxFeePerGas]
  exact ⟨fun hall => hprice.mp (hall 0 0), fun hmin _ _ => hprice.mpr hmin⟩

theorem SameSigned.intrinsicGas_iff (h : SameSigned t u) : t.intrinsicGas = u.intrinsicGas ↔
      accessListGas t.accessList = accessListGas u.accessList := by
  rw [h.eq_withUnsigned]
  exact Nat.add_left_cancel_iff

theorem SameSigned.sameExecution (h : SameSigned t u)
    (htip : min t.maxPriorityFeePerGas.toNat t.maxFeePerGas.toNat =
      min u.maxPriorityFeePerGas.toNat u.maxFeePerGas.toNat)
    (haccess : accessListGas t.accessList = accessListGas u.accessList) : SameExecution t u := by
  have hprice := h.price_iff.mpr htip
  have hgas := h.intrinsicGas_iff.mpr haccess
  refine ⟨hprice, hgas, ?_, ?_⟩
  · intro E sender hash header view
    have hp := hprice sender hash header.baseFeePerGas.toNat
    unfold sign at hp ⊢
    rw [h.eq_withUnsigned] at hp hgas ⊢
    exact executeTx_unsigned hgas E view hp
  intro E sender hash header db vs delta view
  have hp := hprice sender hash header.baseFeePerGas.toNat
  unfold sign at hp ⊢
  rw [h.eq_withUnsigned] at hp hgas ⊢
  exact executeStakingTx_unsigned hgas E view hp db vs delta

/-- Equal signing hashes bind what execution reads, except for the fields that the type of the
transaction leaves out. -/
theorem signing_binds_iff (t u : TypedTransaction) (hfit : t.signingEncoding.length < usizeBound)
    (hfree : CollisionFree {t.signingEncoding, u.signingEncoding})
    (hhash : t.signingHash = u.signingHash) : SameExecution t u ↔ AlikeUnsigned t u := by
  have hsigned := sameSigned_of_signingHash hfit hfree hhash
  constructor
  · intro hsame
    exact ⟨.inr (hsigned.price_iff.mp hsame.price),
      .inr (hsigned.intrinsicGas_iff.mp hsame.intrinsicGas)⟩
  rintro ⟨htip, haccess⟩
  refine hsigned.sameExecution ?_ ?_
  · rcases htip with hdynamic | htip
    · rw [hsigned.tip hdynamic, hsigned.maxFeePerGas]
    · exact htip
  rcases haccess with htyped | haccess
  · rw [hsigned.accessList htyped]
  · exact haccess

/-! ## A legacy transfer -/

def legacyTransfer (tip : UInt64) : TypedTransaction where
  txType := .legacy
  nonce := 0
  maxPriorityFeePerGas := tip
  maxFeePerGas := 2
  gasLimit := 100000
  dest := some 0xb0
  value := 1
  data := []
  accessList := []
  chainId := 8989

theorem signingHash_legacyTransfer (tip tip' : UInt64) :
    (legacyTransfer tip).signingHash = (legacyTransfer tip').signingHash := rfl

/-- Tips of 5 and 6 are both cut to the fee cap. -/
theorem signing_binds_capped : (legacyTransfer 5).signingHash = (legacyTransfer 6).signingHash ∧
      SameExecution (legacyTransfer 5) (legacyTransfer 6) := by
  have hsame : (legacyTransfer 6).signingEncoding = (legacyTransfer 5).signingEncoding := rfl
  have hfree : CollisionFree {(legacyTransfer 5).signingEncoding,
      (legacyTransfer 6).signingEncoding} := by
    rw [hsame, Set.pair_eq_singleton]
    exact Set.subsingleton_singleton.injOn _
  have hhash := signingHash_legacyTransfer 5 6
  have hfit : (legacyTransfer 5).signingEncoding.length < usizeBound := by decide +kernel
  exact ⟨hhash, (signing_binds_iff _ _ hfit hfree hhash).mpr ⟨.inr (by decide), .inr rfl⟩⟩

def payerView : StateView := StateView.new.seedAccount 0xa1 { AccountState.default with balance := 1000000 }

/-- With tips of 0 and 1 the same signature pays 1 or 2 for each unit of gas. -/
theorem signing_leaves_tip : (legacyTransfer 0).signingHash = (legacyTransfer 1).signingHash ∧
      ∃ r r', executeTx .idle ((legacyTransfer 0).sign 0xa1 0) (Block.first []).header payerView =
          .ok r ∧
        executeTx .idle ((legacyTransfer 1).sign 0xa1 0) (Block.first []).header payerView =
          .ok r' ∧ r.1.effectivePrice = 1 ∧ r'.1.effectivePrice = 2 ∧
        (r.2.getAccount 0xa1).balanceU128 = 978999 ∧ (r'.2.getAccount 0xa1).balanceU128 =
          957999 := by
  exact ⟨signingHash_legacyTransfer 0 1, by decide +kernel⟩

end TypedTransaction

end ZbxChain
