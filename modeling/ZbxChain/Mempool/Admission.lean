import Mathlib.Data.List.Sort
import ZbxChain.Lib.FiniteMap
import ZbxChain.Storage.Db
import ZbxChain.Types.Signing

/-!
# Selecting transactions

The pending slots of `TransactionPool` (`zbx-mempool/src/pool.rs`) and the choice of the
transactions of a block. Admission and promotion are left out, except for the bound on the gas
limit that every admitted transaction meets.
-/

namespace ZbxChain

/-- A pending transaction with its tip. `add_transaction` refuses gas limits above the
protocol maximum. -/
structure PendingSlot where
  tx : SignedTransaction
  priority : UInt64
  gasLimit_le : tx.tx.gasLimit.toNat ≤ blockGasLimit

/-- The values of the map of pending transactions, in its iteration order. -/
structure TransactionPool where
  pending : List PendingSlot

def gasLimits (txs : List SignedTransaction) : Nat := (txs.map fun tx => tx.tx.gasLimit.toNat).sum

namespace TransactionPool

/-- One round of the loop: a transaction that no longer fits is passed over. The running sum
wraps. -/
def select (gasLimit : UInt64) (acc : List SignedTransaction × UInt64) (slot : PendingSlot) :
    List SignedTransaction × UInt64 :=
  let totalGas := acc.2 + slot.tx.tx.gasLimit
  if gasLimit < totalGas then acc else (acc.1 ++ [slot.tx], totalGas)

def selectTransactions (pool : TransactionPool) (gasLimit : UInt64) : List SignedTransaction :=
  let slots := pool.pending.insertionSort fun a b => b.priority ≤ a.priority
  (slots.foldl (select gasLimit) ([], 0)).1

/-! ## The gas of a selection -/

structure Selected (gasLimit : UInt64) (acc : List SignedTransaction × UInt64) : Prop where
  total : acc.2.toNat = gasLimits acc.1
  fits : gasLimits acc.1 ≤ gasLimit.toNat

variable {gasLimit : UInt64}

theorem gasLimits_append (txs : List SignedTransaction) (tx : SignedTransaction) :
    gasLimits (txs ++ [tx]) = gasLimits txs + tx.tx.gasLimit.toNat := by
  simp [gasLimits]

theorem Selected.select {acc : List SignedTransaction × UInt64} (h : Selected gasLimit acc)
    (hlimit : gasLimit.toNat ≤ blockGasLimit) (slot : PendingSlot) :
    Selected gasLimit (select gasLimit acc slot) := by
  unfold TransactionPool.select
  dsimp only
  split
  · exact h
  rename_i hle
  -- neither summand exceeds the protocol maximum, so that the sum does not wrap
  have hsum : (acc.2 + slot.tx.tx.gasLimit).toNat = gasLimits acc.1 + slot.tx.tx.gasLimit.toNat := by
    have hslot := slot.gasLimit_le
    have hacc := h.fits
    rw [UInt64.toNat_add, h.total]
    unfold blockGasLimit at hslot hlimit
    omega
  refine ⟨?_, ?_⟩
  · rw [gasLimits_append]
    exact hsum
  · rw [gasLimits_append, ← hsum]
    exact UInt64.le_iff_toNat_le.mp (UInt64.not_lt.mp hle)

theorem Selected.foldl {acc : List SignedTransaction × UInt64} (h : Selected gasLimit acc)
    (hlimit : gasLimit.toNat ≤ blockGasLimit) (slots : List PendingSlot) :
    Selected gasLimit (slots.foldl (TransactionPool.select gasLimit) acc) := by
  induction slots generalizing acc with
  | nil => exact h
  | cons slot rest ih => exact ih (h.select hlimit slot)

theorem gasLimits_selectTransactions (pool : TransactionPool)
    (hlimit : gasLimit.toNat ≤ blockGasLimit) :
    gasLimits (pool.selectTransactions gasLimit) ≤ gasLimit.toNat := by
  have hstart : Selected gasLimit ([], 0) := ⟨rfl, Nat.zero_le _⟩
  exact (hstart.foldl hlimit _).fits

end TransactionPool

/-!
## Admitting and confirming transactions

All of `TransactionPool` of `zbx-mempool/src/pool.rs`: the pending and the queued transactions
with the `NonceTracker`, admission with its checks, the promotion of queued transactions, and
their removal after a block. The recovery of the signer is a parameter.
-/

/-! ## Configuration and errors -/

/-- The size of a transaction is bounded in the source's configuration and never checked. -/
structure MempoolConfig where
  maxPending : Nat
  maxQueued : Nat
  minGasTip : UInt64
  maxSlotsPerSender : Nat
  maxNonceGap : UInt64

protected def MempoolConfig.default : MempoolConfig := ⟨5000, 2000, 1000000, 64, 256⟩

inductive MempoolError
  | alreadyKnown (hash : String)
  | nonceTooLow (addr : Address) (expected got : UInt64)
  | insufficientBalance (balance cost : Nat)
  | gasLimitTooHigh (gasLimit : UInt64) (blockLimit : Nat)
  | feeTooLow (tip min : UInt64)
  | pendingFull (slots : Nat)
  | queuedFull (slots : Nat)
  | invalidSignature (message : String)
  | tooManySlotsPerSender (addr : Address) (slots max : Nat)
  | cumulativeBalanceExceeded (addr : Address) (reserved balance : Nat)
  | replacementUnderpriced (addr : Address) (nonce newTip : UInt64) (required : Nat)
  | intrinsicGasTooLow (addr : Address) (gasLimit : UInt64) (intrinsic : Nat)
  | nonceGapTooLarge (addr : Address) (nonce onChain maxGap : UInt64)
  deriving DecidableEq

/-! ## Nonces -/

/-- The stored nonce of each sender, as last seen, and its highest pending one. -/
structure NonceTracker where
  onChain : Map Address UInt64
  pendingMax : Map Address UInt64

namespace NonceTracker

def new : NonceTracker := ⟨∅, ∅⟩

/-- A highest pending nonce that is not above the stored one is forgotten, also when it is the
stored one and thus still pending. -/
def setOnChain (t : NonceTracker) (addr : Address) (nonce : UInt64) : NonceTracker where
  onChain := t.onChain.insert addr nonce
  pendingMax := match t.pendingMax.lookup addr with
    | some max => if max ≤ nonce then t.pendingMax.erase addr else t.pendingMax
    | none => t.pendingMax

def nextNonce (t : NonceTracker) (addr : Address) : UInt64 :=
  match t.pendingMax.lookup addr with
  | some n => n + 1
  | none => (t.onChain.lookup addr).getD 0

def recordPending (t : NonceTracker) (addr : Address) (nonce : UInt64) : NonceTracker :=
  let entry := (t.pendingMax.lookup addr).getD 0
  { t with pendingMax := t.pendingMax.insert addr (if entry < nonce then nonce else entry) }

end NonceTracker

/-! ## The pool -/

abbrev PoolKey := Address × UInt64

structure QueuedTx where
  tx : SignedTransaction
  gasLimit_le : tx.tx.gasLimit.toNat ≤ blockGasLimit

def QueuedTx.key (tx : QueuedTx) : PoolKey := (tx.tx.sender, tx.tx.tx.nonce)

/-- What a transaction can cost at most. A value that is no `u128` counts as the largest one. -/
def slotCost (tx : Transaction) : Nat :=
  satAddU128 tx.maxCost (if 2 ^ 128 ≤ tx.value.toNat then 2 ^ 128 - 1 else tx.value.toNat)

/-- The pool with all its fields; `TransactionPool` is what selection reads of it. -/
structure Mempool where
  config : MempoolConfig
  pending : Map PoolKey PendingSlot
  queued : Map PoolKey QueuedTx
  known : Map H256 PoolKey
  nonceTracker : NonceTracker
  baseFee : UInt64

namespace Mempool

def new (config : MempoolConfig) : Mempool := ⟨config, ∅, ∅, ∅, .new, 1000000000⟩

variable (pool : Mempool) (addr : Address)

def slots : List PendingSlot := pool.pending.entries.map (·.2)

def updateBaseFee (header : BlockHeader) : Mempool :=
  { pool with baseFee := header.baseFeePerGas }

def tip (tx : SignedTransaction) : UInt64 :=
  UInt64.ofNat (tx.effectiveGasPrice pool.baseFee.toNat - pool.baseFee.toNat)

def senderSlotCount : Nat :=
  pool.pending.keys.countP (·.1 = addr) + pool.queued.keys.countP (·.1 = addr)

def addCosts {ν : Type} (cost : ν → Nat) (addr : Address) (m : Map PoolKey ν) (total : Nat) : Nat :=
  m.entries.foldl (fun total e => if e.1.1 = addr then satAddU128 total (cost e.2) else total) total

def senderCumulativeCost : Nat :=
  addCosts (fun tx => slotCost tx.tx.tx) addr pool.queued
    (addCosts (fun slot => slotCost slot.tx.tx) addr pool.pending 0)

/-- The transaction that one with this key replaces, with its tip. A pending one comes first. -/
def replaced (key : PoolKey) : Option (SignedTransaction × UInt64) :=
  match pool.pending.lookup key with
  | some slot => some (slot.tx, slot.priority)
  | none => (pool.queued.lookup key).map fun old => (old.tx, pool.tip old.tx)

/-! ## Promotion -/

def makePending (key : PoolKey) (tx : QueuedTx) : Mempool :=
  { pool with
    nonceTracker := pool.nonceTracker.recordPending key.1 key.2
    pending := pool.pending.insert key ⟨tx.tx, pool.tip tx.tx, tx.gasLimit_le⟩ }

/-- The rounds of the loop; the number bounds those that are left. -/
def promoteRounds (addr : Address) : Nat → Mempool → Mempool
  | 0, pool => pool
  | rounds + 1, pool =>
    let key := (addr, pool.nonceTracker.nextNonce addr)
    match pool.queued.lookup key with
    | some tx =>
      promoteRounds addr rounds ({ pool with queued := pool.queued.erase key }.makePending key tx)
    | none => pool

def promoteQueued : Mempool := promoteRounds addr 256 pool

/-! ## Admission -/

section

-- `recover_signer` of `zbx-crypto`, with the text of its error
variable (recover : H256 → Signature → Except String Address)

def checkSignature (t : WireTransaction) : Except MempoolError Unit :=
  if t.verifyHash then
    match Signature.fromBytes t.sig.toBytes with
    | .error e => .error (.invalidSignature ("sig parse: " ++ e))
    | .ok cryptoSig =>
      match recover t.tx.signingHash cryptoSig with
      | .error e => .error (.invalidSignature ("recover failed: " ++ e))
      | .ok recovered =>
        if recovered = t.sender then .ok ()
        else .error (.invalidSignature ("signer mismatch: recovered " ++ recovered.debug ++
          " != tx.from " ++ t.sender.debug))
  else .error (.invalidSignature "cached tx hash does not match recomputed hash")

def checkTransaction (pool : Mempool) (t : WireTransaction) (senderBalance : Nat) :
    Except MempoolError QueuedTx :=
  if (pool.known.lookup t.hash).isSome then .error (.alreadyKnown (hexEncode t.hash.toBytes))
  else
    match checkSignature recover t with
    | .error e => .error e
    | .ok () =>
      if hgas : t.toSigned.tx.gasLimit.toNat ≤ blockGasLimit then
        if pool.tip t.toSigned < pool.config.minGasTip then
          .error (.feeTooLow (pool.tip t.toSigned) pool.config.minGasTip)
        else if t.tx.gasLimit.toNat < t.tx.intrinsicGas then
          .error (.intrinsicGasTooLow t.sender t.tx.gasLimit t.tx.intrinsicGas)
        else if senderBalance < slotCost t.toSigned.tx then
          .error (.insufficientBalance senderBalance (slotCost t.toSigned.tx))
        else .ok ⟨t.toSigned, hgas⟩
      else .error (.gasLimitTooHigh t.tx.gasLimit blockGasLimit)

/-- What all transactions of the sender can cost together, when the new one has come and the
one that it replaces has gone. -/
def projectedCost (tx : QueuedTx) : Nat :=
  satAddU128 (pool.senderCumulativeCost tx.tx.sender -
    ((pool.replaced tx.key).map fun old => slotCost old.1.tx).getD 0) (slotCost tx.tx.tx)

def requiredTip (old : UInt64) : Nat := min (old.toNat * 1125) (2 ^ 64 - 1) / 1000 + 1

def checkSlot (tx : QueuedTx) (senderBalance : Nat)
    (senderOnChainNonce : UInt64) : Except MempoolError Unit :=
  let addr := tx.tx.sender
  let nonce := tx.tx.tx.nonce
  if nonce < senderOnChainNonce then .error (.nonceTooLow addr senderOnChainNonce nonce)
  else if pool.config.maxNonceGap < nonce - senderOnChainNonce then
    .error (.nonceGapTooLarge addr nonce senderOnChainNonce pool.config.maxNonceGap)
  else if (pool.replaced tx.key).isNone ∧
      pool.config.maxSlotsPerSender ≤ pool.senderSlotCount addr then
    .error (.tooManySlotsPerSender addr (pool.senderSlotCount addr + 1)
      pool.config.maxSlotsPerSender)
  else if senderBalance < pool.projectedCost tx then
    .error (.cumulativeBalanceExceeded addr (pool.projectedCost tx) senderBalance)
  else
    match pool.replaced tx.key with
    | some (_, old) =>
      if (pool.tip tx.tx).toNat < requiredTip old then
        .error (.replacementUnderpriced addr nonce (pool.tip tx.tx) (requiredTip old))
      else .ok ()
    | none => .ok ()

def knownWith (tx : QueuedTx) : Map H256 PoolKey :=
  let known := match pool.pending.lookup tx.key with
    | some slot => pool.known.erase slot.tx.hash
    | none => pool.known
  let known := match pool.queued.lookup tx.key with
    | some old => known.erase old.tx.hash
    | none => known
  known.insert tx.tx.hash tx.key

/-- The transaction with the next nonce becomes pending, any other is queued. A transaction that
is queued does not remove a pending one with the same key. -/
def place (tx : QueuedTx) : Except MempoolError H256 × Mempool :=
  let isReplacement := (pool.replaced tx.key).isSome
  let expected := pool.nonceTracker.nextNonce tx.tx.sender
  let hash := tx.tx.hash
  let pool := { pool with known := pool.knownWith tx }
  if tx.tx.tx.nonce = expected then
    if !isReplacement ∧ pool.config.maxPending ≤ pool.pending.entries.length then
      (.error (.pendingFull pool.pending.entries.length),
        { pool with known := pool.known.erase hash })
    else (.ok hash, (pool.makePending tx.key tx).promoteQueued tx.tx.sender)
  else if !isReplacement ∧ pool.config.maxQueued ≤ pool.queued.entries.length then
    (.error (.queuedFull pool.queued.entries.length), { pool with known := pool.known.erase hash })
  else (.ok hash, { pool with queued := pool.queued.insert tx.key tx })

def addTransaction (pool : Mempool) (t : WireTransaction) (senderBalance : Nat)
    (senderOnChainNonce : UInt64) : Except MempoolError H256 × Mempool :=
  match pool.checkTransaction recover t senderBalance with
  | .error e => (.error e, pool)
  | .ok tx =>
    let pool := { pool with
      nonceTracker := pool.nonceTracker.setOnChain tx.tx.sender senderOnChainNonce }
    match pool.checkSlot tx senderBalance senderOnChainNonce with
    | .error e => (.error e, pool)
    | .ok () => pool.place tx

end

/-! ## Confirmation -/

def confirm (tx : SignedTransaction) : Mempool :=
  let key := (tx.sender, tx.tx.nonce)
  { pool with
    pending := pool.pending.erase key
    queued := pool.queued.erase key
    known := pool.known.erase tx.hash
    nonceTracker := pool.nonceTracker.setOnChain tx.sender (tx.tx.nonce + 1) }

def removeConfirmed (txs : List SignedTransaction) : Mempool :=
  (txs.map (·.sender)).foldl promoteQueued (txs.foldl confirm pool)

/-! ## What an admission does -/

def observe (nonce : UInt64) (known : Map H256 PoolKey) : Mempool :=
  { pool with nonceTracker := pool.nonceTracker.setOnChain addr nonce, known := known }

def enqueue (tx : QueuedTx) : Mempool :=
  { pool with queued := pool.queued.insert tx.key tx }

/-- What an accepted transaction has passed in a pool that has seen the stored nonce. -/
structure Passes (pool : Mempool) (t : WireTransaction) (senderBalance : Nat) (tx : QueuedTx) :
    Prop where
  tx_eq : tx.tx = t.toSigned
  gas_le : t.tx.intrinsicGas ≤ t.tx.gasLimit.toNat
  projected : pool.projectedCost tx ≤ senderBalance

variable {recover : H256 → Signature → Except String Address} {pool : Mempool}
  {t : WireTransaction} {senderBalance : Nat} {senderOnChainNonce : UInt64} {tx : QueuedTx}

theorem checkTransaction_ok (h : pool.checkTransaction recover t senderBalance = .ok tx) :
    tx.tx = t.toSigned ∧ t.tx.intrinsicGas ≤ t.tx.gasLimit.toNat := by
  unfold checkTransaction at h
  split at h
  · cases h
  split at h
  · cases h
  split_ifs at h with hgas htip hintrinsic hcost
  cases h
  exact ⟨rfl, Nat.le_of_not_lt hintrinsic⟩

theorem checkSlot_ok (h : pool.checkSlot tx senderBalance senderOnChainNonce = .ok ()) :
    pool.projectedCost tx ≤ senderBalance := by
  unfold checkSlot at h
  dsimp only at h
  split_ifs at h with hlow hgap hslots hcost
  exact Nat.le_of_not_lt hcost

variable (recover pool t senderBalance senderOnChainNonce) in
theorem addTransaction_cases :
    (pool.addTransaction recover t senderBalance senderOnChainNonce).2 = pool ∨
    ∃ known, (pool.addTransaction recover t senderBalance senderOnChainNonce).2 =
        pool.observe t.sender senderOnChainNonce known ∨
      ∃ tx, (pool.observe t.sender senderOnChainNonce known).Passes t senderBalance tx ∧
        ((pool.addTransaction recover t senderBalance senderOnChainNonce).2 =
            (pool.observe t.sender senderOnChainNonce known).enqueue tx ∨
          t.tx.nonce = (pool.observe t.sender senderOnChainNonce known).nonceTracker.nextNonce
              t.sender ∧ (pool.addTransaction recover t senderBalance senderOnChainNonce).2 =
              ((pool.observe t.sender senderOnChainNonce known).makePending tx.key
                tx).promoteQueued t.sender) := by
  unfold addTransaction
  cases hcheck : pool.checkTransaction recover t senderBalance with
  | error e => exact .inl rfl
  | ok tx =>
    obtain ⟨htx, hgas⟩ := checkTransaction_ok hcheck
    have hsender : tx.tx.sender = t.sender := by rw [htx]; rfl
    have hnonce : tx.tx.tx.nonce = t.tx.nonce := by rw [htx]; rfl
    dsimp only
    rw [hsender]
    right
    cases hslot : Mempool.checkSlot _ tx senderBalance senderOnChainNonce with
    | error e => exact ⟨pool.known, .inl rfl⟩
    | ok _ =>
      have hpasses : ∀ known, (pool.observe t.sender senderOnChainNonce known).Passes t
          senderBalance tx := fun known => ⟨htx, hgas, checkSlot_ok hslot⟩
      unfold place
      dsimp only
      rw [hsender, hnonce]
      split_ifs with hnext hfull hfull
      · exact ⟨_, .inl rfl⟩
      · exact ⟨_, .inr ⟨tx, hpasses _, .inr ⟨hnext, rfl⟩⟩⟩
      · exact ⟨_, .inl rfl⟩
      · exact ⟨_, .inr ⟨tx, hpasses _, .inl rfl⟩⟩

end Mempool

end ZbxChain
