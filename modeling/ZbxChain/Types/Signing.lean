import ZbxChain.Rlp.Tree
import ZbxChain.Types.Header

/-!
# What a wallet signs

`signing_hash` of `zbx-types/src/transaction.rs`: the Keccak hash of an RLP list of fields, with a
leading type byte for the two later types. The `rlp` crate that the source uses here writes
standard RLP, which is `RlpTree.encode`.
-/

namespace ZbxChain

open RlpTree List

inductive TxType where
  | legacy
  | accessList
  | dynamicFee
  deriving DecidableEq

structure TypedTransaction extends Transaction where
  txType : TxType
  deriving DecidableEq

namespace TypedTransaction

open RlpStream

/-! ## Encoding -/

def u64Item (n : UInt64) : RlpTree := .bytes (minimalBytes n.toNat)

def u256RlpBytes (value : U256) : Bytes := trimZeros (H256.toBytes value)

def destItem : Option Address → RlpTree
  | some dest => .bytes dest.toBytes
  | none => .bytes []

def slotsItem (slots : List H256) : RlpTree := .list (slots.map fun slot => .bytes slot.toBytes)

def accessItem (entry : Address × List H256) : RlpTree :=
  .list [.bytes entry.1.toBytes, slotsItem entry.2]

def rlpAccessList (accessList : List (Address × List H256)) : RlpTree :=
  .list (accessList.map accessItem)

/-- The list of fields that is signed. A legacy or access list transaction has one price. -/
def signedFields (t : TypedTransaction) : List RlpTree :=
  match t.txType with
  | .legacy => [u64Item t.nonce, u64Item t.maxFeePerGas, u64Item t.gasLimit, destItem t.dest,
      .bytes (u256RlpBytes t.value), .bytes t.data, u64Item t.chainId, u64Item 0, u64Item 0]
  | .accessList => [u64Item t.chainId, u64Item t.nonce, u64Item t.maxFeePerGas,
      u64Item t.gasLimit, destItem t.dest, .bytes (u256RlpBytes t.value), .bytes t.data,
      rlpAccessList t.accessList]
  | .dynamicFee => [u64Item t.chainId, u64Item t.nonce, u64Item t.maxPriorityFeePerGas,
      u64Item t.maxFeePerGas, u64Item t.gasLimit, destItem t.dest,
      .bytes (u256RlpBytes t.value), .bytes t.data, rlpAccessList t.accessList]

def typeByte : TxType → Bytes
  | .legacy => []
  | .accessList => [0x01]
  | .dynamicFee => [0x02]

def signingEncoding (t : TypedTransaction) : Bytes :=
  typeByte t.txType ++ (list t.signedFields).encode

def signingHash (t : TypedTransaction) : H256 := keccak256 t.signingEncoding

/-! ## Items determine their fields -/

theorem u64Item_inj {m n : UInt64} (h : u64Item m = u64Item n) : m = n :=
  UInt64.toNat_inj.mp (minimalBytes_inj m.toNat_lt n.toNat_lt (bytes.inj h))

theorem u256RlpBytes_inj {v w : U256} (h : u256RlpBytes v = u256RlpBytes w) : v = w :=
  H256.toBytes_injective (trimZeros_inj (by rw [H256.length_toBytes, H256.length_toBytes]) h)

theorem destItem_inj {a b : Option Address} (h : destItem a = destItem b) : a = b := by
  cases a with
  | none =>
    cases b with
    | none => rfl
    | some b =>
      have hlen := congrArg length (bytes.inj h)
      rw [Address.length_toBytes] at hlen
      cases hlen
  | some a =>
    cases b with
    | none =>
      have hlen := congrArg length (bytes.inj h)
      rw [Address.length_toBytes] at hlen
      cases hlen
    | some b => rw [Address.toBytes_injective (bytes.inj h)]

theorem slotsItem_inj {a b : List H256} (h : slotsItem a = slotsItem b) : a = b := by
  have hinj : Function.Injective fun slot : H256 => bytes slot.toBytes :=
    fun x y hxy => H256.toBytes_injective (bytes.inj hxy)
  exact hinj.list_map (list.inj h)

theorem accessItem_inj {a b : Address × List H256} (h : accessItem a = accessItem b) : a = b := by
  have hitems := cons.inj (list.inj h)
  have haddr : a.1 = b.1 := Address.toBytes_injective (bytes.inj hitems.1)
  have hslots : a.2 = b.2 := slotsItem_inj (cons.inj hitems.2).1
  exact Prod.ext haddr hslots

theorem rlpAccessList_inj {a b : List (Address × List H256)}
    (h : rlpAccessList a = rlpAccessList b) : a = b :=
  Function.Injective.list_map (fun _ _ => accessItem_inj) (list.inj h)

/-! ## The hash determines the signed fields -/

structure SameSigned (t u : TypedTransaction) : Prop where
  txType : t.txType = u.txType
  nonce : t.nonce = u.nonce
  maxFeePerGas : t.maxFeePerGas = u.maxFeePerGas
  gasLimit : t.gasLimit = u.gasLimit
  dest : t.dest = u.dest
  value : t.value = u.value
  data : t.data = u.data
  chainId : t.chainId = u.chainId
  tip : t.txType = .dynamicFee → t.maxPriorityFeePerGas = u.maxPriorityFeePerGas
  accessList : t.txType ≠ .legacy → t.accessList = u.accessList

theorem encode_list_ne_cons {fields : List RlpTree} {b : UInt8} {rest : Bytes} (hb : b < 0xc0) :
    (list fields).encode ≠ b :: rest := by
  intro h
  have hlist : Rlp.isList (b :: rest) = true := h ▸ Rlp.isList_listItem _
  have hge : b ≥ 0xc0 := of_decide_eq_true hlist
  exact absurd hb (UInt8.not_lt.mpr hge)

variable {t u : TypedTransaction}

theorem txType_of_encoding (h : t.signingEncoding = u.signingEncoding) : t.txType = u.txType := by
  unfold signingEncoding at h
  cases ht : t.txType <;> cases hu : u.txType <;> rw [ht, hu] at h
  all_goals
    first
    | rfl
    | exact absurd h (encode_list_ne_cons (by decide))
    | exact absurd h.symm (encode_list_ne_cons (by decide))
    | exact absurd (cons.inj h).1 (by decide)

variable (hfit : t.signingEncoding.length < usizeBound)

include hfit

theorem signedFields_of_encoding (h : t.signingEncoding = u.signingEncoding) :
    t.signedFields = u.signedFields := by
  have htype := txType_of_encoding h
  unfold signingEncoding at h hfit
  rw [htype] at h
  have hencode := append_cancel_left h
  rw [length_append] at hfit
  exact list.inj (encode_injective (by omega) hencode)

theorem sameSigned_of_encoding (h : t.signingEncoding = u.signingEncoding) : SameSigned t u := by
  have htype := txType_of_encoding h
  have hfields := signedFields_of_encoding hfit h
  unfold signedFields at hfields
  rw [← htype] at hfields
  cases ht : t.txType with
  | legacy =>
    simp only [ht, cons.injEq, and_true] at hfields
    obtain ⟨hnonce, hfee, hgas, hdest, hvalue, hdata, hchain⟩ := hfields
    exact ⟨htype, u64Item_inj hnonce, u64Item_inj hfee, u64Item_inj hgas, destItem_inj hdest,
      u256RlpBytes_inj (bytes.inj hvalue), bytes.inj hdata, u64Item_inj hchain,
      fun h => absurd (ht.symm.trans h) (by decide), fun h => absurd ht h⟩
  | accessList =>
    simp only [ht, cons.injEq, and_true] at hfields
    obtain ⟨hchain, hnonce, hfee, hgas, hdest, hvalue, hdata, haccess⟩ := hfields
    exact ⟨htype, u64Item_inj hnonce, u64Item_inj hfee, u64Item_inj hgas, destItem_inj hdest,
      u256RlpBytes_inj (bytes.inj hvalue), bytes.inj hdata, u64Item_inj hchain,
      fun h => absurd (ht.symm.trans h) (by decide), fun _ => rlpAccessList_inj haccess⟩
  | dynamicFee =>
    simp only [ht, cons.injEq, and_true] at hfields
    obtain ⟨hchain, hnonce, htip, hfee, hgas, hdest, hvalue, hdata, haccess⟩ := hfields
    exact ⟨htype, u64Item_inj hnonce, u64Item_inj hfee, u64Item_inj hgas, destItem_inj hdest,
      u256RlpBytes_inj (bytes.inj hvalue), bytes.inj hdata, u64Item_inj hchain,
      fun _ => u64Item_inj htip, fun _ => rlpAccessList_inj haccess⟩

theorem sameSigned_of_signingHash (hfree : CollisionFree {t.signingEncoding, u.signingEncoding})
    (h : t.signingHash = u.signingHash) : SameSigned t u :=
  sameSigned_of_encoding hfit (hfree (.inl rfl) (.inr rfl) h)

end TypedTransaction

/-!
## Blocks as peers send them

The complete `SignedTransaction` and `Block` of `zbx-types`, with the type and the signature of
each transaction.
-/

structure Signature where
  v : UInt8
  r : H256
  s : H256
  deriving DecidableEq

def Signature.toBytes (sig : Signature) : Bytes := sig.r.toBytes ++ sig.s.toBytes ++ [sig.v]

/-- The signature of `zbx-crypto`, which has the same layout. -/
def Signature.fromBytes (b : Bytes) : Except String Signature :=
  if b.length ≠ 65 then
    .error ("invalid length: expected 65 bytes, got " ++ toString b.length)
  else .ok ⟨b.getD 64 0, H256.ofBytes (b.take 32), H256.ofBytes ((b.drop 32).take 32)⟩

/-- `sender` and `hash` are values that the peer has filled in. -/
structure WireTransaction where
  tx : TypedTransaction
  sig : Signature
  sender : Address
  hash : H256
  deriving DecidableEq

def WireTransaction.toSigned (t : WireTransaction) : SignedTransaction :=
  ⟨t.tx.toTransaction, t.sender, t.hash⟩

/-- `recover_signer` of `zbx-crypto`: the address of the key that made a signature over a
hash, `none` when there is none. -/
abbrev RecoverSigner := H256 → Signature → Option Address

def WireTransaction.Authentic (recover : RecoverSigner) (t : WireTransaction) : Prop :=
  recover t.tx.signingHash t.sig = some t.sender

namespace WireTransaction

open TypedTransaction

/-- The fields behind the hash of a transaction: those that are signed, then the signature. The
`v` of a legacy transaction holds the chain as well, and saturates. -/
def hashedFields (t : WireTransaction) : List RlpTree :=
  match t.tx.txType with
  | .legacy => [u64Item t.tx.nonce, u64Item t.tx.maxFeePerGas, u64Item t.tx.gasLimit,
      destItem t.tx.dest, .bytes (u256RlpBytes t.tx.value), .bytes t.tx.data,
      u64Item (UInt64.ofNat (min (t.tx.chainId.toNat * 2 + 35 + t.sig.v.toNat) (2 ^ 64 - 1))),
      .bytes (trimZeros t.sig.r.toBytes), .bytes (trimZeros t.sig.s.toBytes)]
  | .accessList | .dynamicFee => t.tx.signedFields ++ [u64Item (UInt64.ofNat t.sig.v.toNat),
      .bytes (trimZeros t.sig.r.toBytes), .bytes (trimZeros t.sig.s.toBytes)]

def computeHash (t : WireTransaction) : H256 :=
  keccak256 (typeByte t.tx.txType ++ (RlpTree.list t.hashedFields).encode)

def verifyHash (t : WireTransaction) : Bool := t.computeHash = t.hash

end WireTransaction

structure WireBlock where
  header : SealedHeader
  transactions : List WireTransaction
  uncles : List SealedHeader
  deriving DecidableEq

namespace WireBlock

def toBlock (block : WireBlock) : Block :=
  ⟨block.header.toBlockHeader, block.transactions.map WireTransaction.toSigned⟩

def Authentic (recover : RecoverSigner) (block : WireBlock) : Prop :=
  ∀ t ∈ block.transactions, t.Authentic recover

end WireBlock

end ZbxChain
