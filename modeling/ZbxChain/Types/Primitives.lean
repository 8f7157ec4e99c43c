import ZbxChain.Lib.Bytes

/-!
# Fixed-width values

`H256` (hashes and 256-bit words) and `Address` are bit vectors of the widths of
the source's byte arrays `[u8; 32]` and `[u8; 20]`. The byte strings are their
big-endian forms.
-/

namespace ZbxChain

/-- A 32-byte hash; the machine's words and `U256` amounts have the same width. -/
abbrev H256 := BitVec 256

abbrev U256 := BitVec 256

abbrev Address := BitVec 160

namespace H256

def toBytes (h : H256) : Bytes := beBytes 32 h.toNat

/-- The word with the big-endian digits `b` (its low 32 bytes when `b` is longer). -/
def ofBytes (b : Bytes) : H256 := BitVec.ofNat 256 (beNat b)

@[simp] theorem length_toBytes (h : H256) : h.toBytes.length = 32 := length_beBytes _ _

@[simp] theorem ofBytes_toBytes (h : H256) : ofBytes h.toBytes = h := by
  have hlt : h.toNat < 256 ^ 32 := h.isLt
  rw [ofBytes, toBytes, beNat_beBytes_of_lt hlt, BitVec.ofNat_toNat, BitVec.setWidth_eq]

theorem toBytes_injective : Function.Injective toBytes := fun a b h => by
  rw [← ofBytes_toBytes a, h, ofBytes_toBytes]

end H256

namespace Address

def toBytes (a : Address) : Bytes := beBytes 20 a.toNat

@[simp] theorem length_toBytes (a : Address) : a.toBytes.length = 20 := length_beBytes _ _

theorem toBytes_injective : Function.Injective toBytes := fun a b h =>
  BitVec.eq_of_toNat_eq (beBytes_inj a.isLt b.isLt h)

end Address

theorem beBytes_bitVec_inj {n : Nat} {a b : BitVec (8 * n)}
    (h : beBytes n a.toNat = beBytes n b.toNat) : a = b := by
  have hpow : 256 ^ n = 2 ^ (8 * n) := (Nat.pow_mul 2 8 n).symm
  exact BitVec.eq_of_toNat_eq (beBytes_inj (hpow ▸ a.isLt) (hpow ▸ b.isLt) h)

theorem beBytes_toNat_inj {a b : UInt64} (h : beBytes 8 a.toNat = beBytes 8 b.toNat) : a = b :=
  UInt64.toNat_inj.mp (beBytes_inj a.toNat_lt b.toNat_lt h)

/-!
## Transactions and blocks

The parts of `zbx-types` that block execution reads: transactions with their gas prices,
headers, logs and the block reward.
-/

/-- `dest` is the source's `to`. -/
structure Transaction where
  nonce : UInt64
  maxPriorityFeePerGas : UInt64
  maxFeePerGas : UInt64
  gasLimit : UInt64
  dest : Option Address
  value : U256
  data : Bytes
  accessList : List (Address × List H256)
  chainId : UInt64
  deriving DecidableEq

namespace Transaction

def dataGas (b : UInt8) : Nat := if b = 0 then 4 else 16

def intrinsicGas (tx : Transaction) : Nat :=
  let base := if tx.dest.isNone then 53000 else 21000
  let alCost := tx.accessList.length * 2400 +
    (tx.accessList.map fun entry => entry.2.length * 1900).sum
  base + (tx.data.map dataGas).sum + alCost

def valueU128 (tx : Transaction) : Nat := tx.value.toNat % 2 ^ 128

def maxCost (tx : Transaction) : Nat := tx.maxFeePerGas.toNat * tx.gasLimit.toNat

end Transaction

/-- `sender` is the source's `from`. -/
structure SignedTransaction where
  tx : Transaction
  sender : Address
  hash : H256
  deriving DecidableEq

def SignedTransaction.effectiveGasPrice (tx : SignedTransaction) (baseFee : Nat) : Nat :=
  baseFee + min tx.tx.maxPriorityFeePerGas.toNat (tx.tx.maxFeePerGas.toNat - baseFee)

def SignedTransaction.basic (sender : Address) (nonce : UInt64) (dest : Option Address)
    (value : U256) (data : Bytes) : SignedTransaction :=
  ⟨⟨nonce, 1, 2, 100000, dest, value, data, [], 1⟩, sender, 0⟩

def ofSender (s : Address) (txs : List SignedTransaction) : List SignedTransaction :=
  txs.filter fun tx => tx.sender = s

theorem ofSender_cons_self {tx : SignedTransaction} (txs : List SignedTransaction) :
    ofSender tx.sender (tx :: txs) = tx :: ofSender tx.sender txs := by
  simp [ofSender]

theorem ofSender_cons_ne {s : Address} {tx : SignedTransaction} (h : tx.sender ≠ s)
    (txs : List SignedTransaction) : ofSender s (tx :: txs) = ofSender s txs := by
  simp [ofSender, h]

/-- The transactions of a sender have the nonces from `nonce` on. -/
def Consecutive (s : Address) (nonce : Nat) (txs : List SignedTransaction) : Prop :=
  (ofSender s txs).map (fun tx => tx.tx.nonce.toNat) = List.range' nonce (ofSender s txs).length

section

variable {s : Address} {nonce : Nat} {tx : SignedTransaction} {txs : List SignedTransaction}

theorem consecutive_cons_self : Consecutive tx.sender nonce (tx :: txs) ↔
    tx.tx.nonce.toNat = nonce ∧ Consecutive tx.sender (nonce + 1) txs := by
  unfold Consecutive
  rw [ofSender_cons_self, List.map_cons, List.length_cons, List.range'_succ, List.cons.injEq]

theorem consecutive_cons_ne (h : tx.sender ≠ s) :
    Consecutive s nonce (tx :: txs) ↔ Consecutive s nonce txs := by
  unfold Consecutive
  rw [ofSender_cons_ne h]

end

structure Log where
  address : Address
  topics : List H256
  data : Bytes
  blockNumber : UInt64
  logIndex : UInt32
  transactionHash : H256
  transactionIndex : UInt32
  deriving DecidableEq

structure BlockHeader where
  coinbase : Address
  stateRoot : H256
  number : UInt64
  gasLimit : UInt64
  gasUsed : UInt64
  timestamp : UInt64
  mixHash : H256
  baseFeePerGas : UInt64
  deriving DecidableEq

structure Block where
  header : BlockHeader
  transactions : List SignedTransaction
  deriving DecidableEq

/-- A block at height 1 with a base fee of 1, of the coinbase `0xcb`. -/
def Block.first (transactions : List SignedTransaction) : Block :=
  ⟨⟨0xcb, 0, 1, 30000000, 0, 1, 0, 1⟩, transactions⟩

def blockGasLimit : Nat := 30000000

def totalSupply : Nat := 150000000 * 10 ^ 18

def initialBlockReward : Nat := 2 * 10 ^ 18

def halvingInterval : Nat := 63072000

def blockRewardAt (height : Nat) : Nat :=
  let halvings := height / halvingInterval
  if 64 ≤ halvings then 0 else initialBlockReward >>> halvings

/-- `u128::saturating_add` of two `u128` values. -/
def satAddU128 (a b : Nat) : Nat := min (a + b) (2 ^ 128 - 1)

theorem satAddU128_le (a b : Nat) : satAddU128 a b ≤ a + b := Nat.min_le_left _ _

theorem satAddU128_lt (a b : Nat) : satAddU128 a b < 2 ^ 128 :=
  Nat.lt_of_le_of_lt (Nat.min_le_right _ _) (by decide)

end ZbxChain
