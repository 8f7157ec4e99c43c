import ZbxChain.Execution.TxTrie
import ZbxChain.State.AccountLeaves

/-!
# Proofs for light clients

`TxProof` and `AccountProof` of `zbx-light/src/spv.rs`, and whether they can be made for what the
chain commits to. The account record that is decoded has four fields.
-/

namespace ZbxChain

open RlpStream TxTrie MerkleProof MutableTrie H256 NibbleTree Rlp Except Option List

namespace Light

/-! ## Transactions -/

/-- `RLP(index)`. -/
def txIndexKey (index : UInt64) : Bytes :=
  if index = 0 then [0x80] else stringItem (minimalBytes index.toNat)

structure TxProof where
  blockNumber : UInt64
  blockHash : H256
  txIndex : UInt64
  txHash : H256
  txRlp : Bytes
  proof : List Bytes
  root : H256

def TxProof.verify (p : TxProof) : TrieResult Bool :=
  if p.txRlp = [] ∨ p.proof = [] then .ok false
  else if keccak256 p.txRlp ≠ p.txHash then .ok false
  else verifyProof p.root (txIndexKey p.txIndex) (some p.txRlp) p.proof

/-! ## Accounts -/

structure AccountProof where
  address : Address
  blockNumber : UInt64
  stateRoot : H256
  accountRlp : Bytes
  proof : List Bytes

structure DecodedAccount where
  nonce : UInt64
  balance : U256
  storageRoot : H256
  codeHash : H256
  deriving DecidableEq

def h256FromBytes (b : Bytes) : Option H256 :=
  if b.length = 32 then some (ofBytes b) else none

/-- `U256::from_big_endian`, which panics on more than 32 bytes. -/
def u256FromBigEndian (b : Bytes) : Except (Fault Unit) U256 :=
  if 32 < b.length then .error .panic else .ok (ofBytes b)

def orNone {α ε : Type} : Except (Fault ε) α → Except (Fault Unit) α
  | .ok a => .ok a
  | .error (.err _) => .error (.err ())
  | .error .panic => .error .panic

def someOr {α : Type} : Option α → Except (Fault Unit) α
  | some a => .ok a
  | none => .error (.err ())

namespace AccountProof

variable (p : AccountProof)

def verify : TrieResult Bool :=
  if p.accountRlp = [] ∨ p.proof = [] then .ok false
  else verifyProof p.stateRoot (Mpt.accountKey p.address) (some p.accountRlp) p.proof

def decodeFields (rlp : Bytes) : Except (Fault Unit) DecodedAccount := do
  let item ← orNone (itemAt rlp 0)
  let nonce ← orNone (decodeU64 item)
  let balanceBytes ← orNone (valAt rlp 1)
  let storageRootBytes ← orNone (valAt rlp 2)
  let codeHashBytes ← orNone (valAt rlp 3)
  let balance ← u256FromBigEndian balanceBytes
  let storageRoot ← someOr (h256FromBytes storageRootBytes)
  let codeHash ← someOr (h256FromBytes codeHashBytes)
  return ⟨.ofNat nonce, balance, storageRoot, codeHash⟩

/-- `None` is the error `()`. -/
def decodeAccount : Except (Fault Unit) DecodedAccount :=
  match orNone (itemCount p.accountRlp) with
  | .ok count => if count ≠ 4 then .error (.err ()) else decodeFields p.accountRlp
  | .error e => .error e

def field {α : Type} (p : AccountProof) (f : DecodedAccount → α) (default : α) :
    Except (Fault Unit) α :=
  match p.decodeAccount with
  | .ok a => .ok (f a)
  | .error (.err ()) => .ok default
  | .error .panic => .error .panic

def nonce : Except (Fault Unit) UInt64 := p.field DecodedAccount.nonce 0

def balance : Except (Fault Unit) U256 := p.field DecodedAccount.balance 0

def storageRoot : Except (Fault Unit) H256 := p.field DecodedAccount.storageRoot 0

def codeHash : Except (Fault Unit) H256 := p.field DecodedAccount.codeHash 0

/-- The four getters return the values of an account whose storage root is `r`. -/
def Reports (state : AccountState) (r : H256) : Prop :=
  p.nonce = .ok state.nonce ∧ p.balance = .ok state.balance ∧ p.storageRoot = .ok r ∧
    p.codeHash = .ok state.codeHash

end AccountProof

/-! ## Decoding what the state code encodes -/

open Mpt

theorem decodeU64_u64MinBe (n : UInt64) : decodeU64 (stringItem (u64MinBe n)) = .ok n.toNat := by
  have hmin : u64MinBe n = minimalBytes n.toNat := by
    unfold u64MinBe
    split
    · next hzero =>
      rw [hzero]
      rfl
    · rfl
  have hle := length_minimalBytes_le n.toNat
  have hitem := length_stringItem (minimalBytes n.toNat)
  have hfit : (stringItem (minimalBytes n.toNat)).length < usizeBound := by
    unfold usizeBound
    omega
  have hwrap : (0 + 1) * 256 ^ (minimalBytes n.toNat).length ≤ usizeBound := by
    have hpow := Nat.pow_le_pow_right (show 0 < 256 by decide) hle
    unfold usizeBound
    omega
  have hvalue : beNat (minimalBytes n.toNat) = n.toNat :=
    beNat_minimalBytes n.toNat_lt
  unfold decodeU64
  rw [hmin, asBytes_stringItem hfit, ok_bind, if_neg (by omega), foldl_wrap_eq hwrap, hvalue,
    Nat.zero_mul, Nat.zero_add]
  rfl

theorem length_stripLeadingZeros_le (h : H256) : (stripLeadingZeros h.toBytes).length ≤ 32 := by
  have hle := length_trimZeros_le h.toBytes
  rw [length_toBytes] at hle
  exact hle

theorem u256FromBigEndian_strip (w : U256) :
    u256FromBigEndian (stripLeadingZeros (toBytes w)) = .ok w := by
  unfold u256FromBigEndian
  rw [if_neg (Nat.not_lt.mpr (length_stripLeadingZeros_le w))]
  unfold stripLeadingZeros ofBytes
  rw [beNat_trimZeros]
  exact congrArg ok (ofBytes_toBytes w)

theorem h256FromBytes_toBytes (h : H256) : h256FromBytes h.toBytes = some h := by
  unfold h256FromBytes
  rw [if_pos (length_toBytes h), ofBytes_toBytes]

theorem decodeFields_encodeAccountRlp (state : AccountState) (r : H256) :
    AccountProof.decodeFields (encodeAccountRlp state r) =
      .ok ⟨state.nonce, state.balance, r, state.codeHash⟩ := by
  have hnonce : (accountItems state r)[0]? = some (u64MinBe state.nonce) := rfl
  have hbalance : (accountItems state r)[1]? =
      some (stripLeadingZeros (toBytes state.balance)) := rfl
  have hroot : (accountItems state r)[2]? = some r.toBytes := rfl
  have hcode : (accountItems state r)[3]? = some (toBytes state.codeHash) := rfl
  unfold AccountProof.decodeFields
  simp only [itemAt_encodeAccountRlp hnonce, decodeU64_u64MinBe, valAt_accountItem hbalance,
    valAt_accountItem hroot, valAt_accountItem hcode, orNone, someOr, u256FromBigEndian_strip,
    h256FromBytes_toBytes, ok_bind, UInt64.ofNat_toNat, pure_eq_ok]

theorem decodeAccount_encodeAccountRlp {p : AccountProof} {state : AccountState} {r : H256}
    (h : p.accountRlp = encodeAccountRlp state r) :
    p.decodeAccount = if state.vm = .zvm then .error (.err ())
      else .ok ⟨state.nonce, state.balance, r, state.codeHash⟩ := by
  unfold AccountProof.decodeAccount
  rw [h, itemCount_encodeAccountRlp, length_accountItems, decodeFields_encodeAccountRlp]
  by_cases hzvm : state.vm = .zvm
  · rw [if_pos hzvm, if_pos hzvm]
    rfl
  · rw [if_neg hzvm, if_neg hzvm]
    rfl

def AllZero (state : AccountState) (r : H256) : Prop :=
  state.nonce = 0 ∧ state.balance = 0 ∧ r = 0 ∧ state.codeHash = 0

theorem reports_iff {p : AccountProof} {state : AccountState} {r : H256}
    (h : p.accountRlp = encodeAccountRlp state r) :
    p.Reports state r ↔ state.vm = .evm ∨ AllZero state r := by
  have hdecode := decodeAccount_encodeAccountRlp h
  unfold AccountProof.Reports AccountProof.nonce AccountProof.balance AccountProof.storageRoot
    AccountProof.codeHash AccountProof.field AllZero
  rw [hdecode]
  cases hvm : state.vm with
  | evm =>
    rw [if_neg (by decide)]
    exact ⟨fun _ => .inl rfl, fun _ => ⟨rfl, rfl, rfl, rfl⟩⟩
  | zvm =>
    rw [if_pos rfl]
    constructor
    · rintro ⟨hnonce, hbalance, hroot, hcode⟩
      exact .inr ⟨(ok.inj hnonce).symm, (ok.inj hbalance).symm,
        (ok.inj hroot).symm, (ok.inj hcode).symm⟩
    rintro (hevm | ⟨hnonce, hbalance, hroot, hcode⟩)
    · cases hevm
    · exact ⟨congrArg ok hnonce.symm, congrArg ok hbalance.symm,
        congrArg ok hroot.symm, congrArg ok hcode.symm⟩

/-! ## Completeness -/

theorem le_length_encodeAccountRlp (state : AccountState) (r : H256) :
    32 ≤ (encodeAccountRlp state r).length := by
  have hmem : stringItem r.toBytes ∈
      (accountItems state r).map stringItem :=
    mem_map.mpr ⟨r.toBytes, by simp [accountItems], rfl⟩
  have hlt := length_lt_listItem hmem
  have hle := length_stringItem r.toBytes
  rw [length_toBytes] at hle
  rw [encodeAccountRlp_eq]
  omega

section

variable {DB : Type} [TrieDB DB] {accounts : Map Address AccountState}
  {storage : Map Address (Map H256 H256)} {db : DB} {T : MutableTrie DB}

theorem prove_account (hbuilt : stateTrieWithDb accounts storage db = .ok () T)
    (hfree : CollisionFree (hashedBytes T ∪ addressBytes accounts)) {addr : Address}
    {state : AccountState} (hmem : accounts.lookup addr = some state)
    (hne : state.isEmpty = false) : ∃ r nodes, leafStorageRoot storage db addr state = .ok r ∧
      T.prove (accountKey addr) = .ok ⟨accountKey addr, some (encodeAccountRlp state r), nodes⟩ ∧
      verifyProof T.root (accountKey addr) (some (encodeAccountRlp state r)) nodes = .ok true := by
  have hentry : (⟨addr, state⟩ : (_ : Address) × AccountState) ∈ accounts.entries :=
    of_mem_dlookup (mem_def.mpr hmem)
  have hkept : ¬ (state.isEmpty ∧ (dirtySlots storage addr).isNone) := by
    rw [hne]
    exact fun h => absurd h.1 (by decide)
  obtain ⟨r, hr⟩ := leafStorageRoot_ok_of_applyAccounts hbuilt hentry hkept
  obtain ⟨t, hrep, hmap⟩ := stateTrieWithDb_models hbuilt Set.subset_union_left hfree
  have hleaf : TrieOp.mapAfter (accountOps accounts storage db) (fun _ => none) (accountKey addr) =
      some (encodeAccountRlp state r) := by
    have hkeys : ∀ e ∈ accounts.entries, e.1.toBytes ∈ hashedBytes T ∪
        addressBytes accounts := fun e he => .inr (mem_map.mpr ⟨e, he, rfl⟩)
    unfold accountOps
    rw [mapAfter_filterMap_accountOp (injOn_accountKey hfree) accounts.nodupKeys hkeys _
      (hkeys ⟨addr, state⟩ hentry), or_none]
    have hlookup : accounts.entries.dlookup addr = some state := hmem
    rw [hlookup]
    unfold accountLeaf
    rw [bind_some, if_neg hkept, hr]
  have h80 : [0x80] ∈ hashedBytes T ∪ addressBytes accounts :=
    .inl (TrieOp.emptyString_mem_hashedBytes T)
  obtain ⟨hprove, hverify⟩ := hrep.prove hfree h80 (le_length_encodeAccountRlp state r)
    ((hmap.lookup _).trans hleaf)
  exact ⟨r, _, hr, hprove, hverify⟩

end

/-- The client's proof from what `prove` returns for the key of an address. -/
def accountProof (addr : Address) (blockNumber : UInt64) (stateRoot : H256) (p : MerkleProof) :
    AccountProof :=
  ⟨addr, blockNumber, stateRoot, p.value.getD [], p.nodes⟩

theorem verify_accountProof {addr : Address} {root : H256} {state : AccountState} {r : H256}
    {nodes : List Bytes} (blockNumber : UInt64)
    (h : verifyProof root (accountKey addr) (some (encodeAccountRlp state r)) nodes = .ok true) :
    (accountProof addr blockNumber root
      ⟨accountKey addr, some (encodeAccountRlp state r), nodes⟩).verify = .ok true := by
  have hnodes : nodes ≠ [] := by
    rintro rfl
    have hfalse := ok.inj h
    rw [isNone_some, Bool.and_false] at hfalse
    cases hfalse
  unfold AccountProof.verify accountProof
  dsimp only [getD_some]
  rw [if_neg (not_or.mpr ⟨encodeAccountRlp_ne_nil state r, hnodes⟩)]
  exact h

theorem txIndexKey_eq (i : UInt64) : txIndexKey i = stringItem (minimalBytes i.toNat) := by
  unfold txIndexKey
  split
  · next hzero =>
    rw [hzero]
    rfl
  · rfl

theorem exists_txProof {hashes : List H256} (hfit : hashes.length ≤ usizeBound) {i : UInt64}
    (hi : i.toNat < hashes.length) (blockNumber : UInt64) (blockHash : H256) :
    ∃ p : TxProof, p.blockNumber = blockNumber ∧ p.blockHash = blockHash ∧ p.txIndex = i ∧
      p.root = root hashes ∧ p.verify = .ok true := by
  obtain ⟨hash, hget⟩ : ∃ hash, hashes[i.toNat]? = some hash :=
    ⟨_, getElem?_eq_getElem hi⟩
  have hverify := verifyProof_txTree hfit hget
  rw [← txIndexKey_eq] at hverify
  have hrlp : hashItem hash ≠ [] := by
    intro hnil
    have hlen := (length_hashItem hash).1
    rw [hnil] at hlen
    exact absurd hlen (by decide)
  have hnodes : pathNodes (txTree hashes) (indexKey i.toNat) ≠ [] := by
    refine pathNodes_ne_nil ?_ _
    intro hnil
    have hlookup := lookup_txTree hfit hget
    rw [hnil] at hlookup
    cases hlookup
  refine ⟨⟨blockNumber, blockHash, i, keccak256 (hashItem hash), hashItem hash,
    pathNodes (txTree hashes) (indexKey i.toNat), root hashes⟩,
    rfl, rfl, rfl, rfl, ?_⟩
  unfold TxProof.verify
  rw [if_neg (not_or.mpr ⟨hrlp, hnodes⟩), if_neg (not_not.mpr rfl)]
  exact hverify

/-- The proof of a non-empty account from the state trie is accepted, and it reports the account
exactly when that is one of the EVM or all of its values are zero. Under the root of the
transactions there is an accepted proof for every index; its leaf is the encoded hash. -/
theorem light_proofs_iff {DB : Type} [TrieDB DB] :
    (∀ (accounts : Map Address AccountState) (storage : Map Address (Map H256 H256)) (db : DB)
      (T : MutableTrie DB), stateTrieWithDb accounts storage db = .ok () T →
      CollisionFree (hashedBytes T ∪ addressBytes accounts) →
      ∀ (addr : Address) (state : AccountState) (blockNumber : UInt64),
        accounts.lookup addr = some state → state.isEmpty = false →
        ∃ r p, leafStorageRoot storage db addr state = .ok r ∧ T.prove (accountKey addr) = .ok p ∧
          (accountProof addr blockNumber T.root p).verify = .ok true ∧
          ((accountProof addr blockNumber T.root p).Reports state r ↔
            state.vm = .evm ∨ AllZero state r)) ∧
    ∀ (hashes : List H256) (i : UInt64) (blockNumber : UInt64) (blockHash : H256),
      hashes.length ≤ usizeBound → i.toNat < hashes.length →
      ∃ p : TxProof, p.blockNumber = blockNumber ∧ p.blockHash = blockHash ∧ p.txIndex = i ∧
        p.root = root hashes ∧ p.verify = .ok true := by
  constructor
  · intro accounts storage db T hbuilt hfree addr state blockNumber hmem hne
    obtain ⟨r, nodes, hr, hprove, hverify⟩ := prove_account hbuilt hfree hmem hne
    exact ⟨r, _, hr, hprove, verify_accountProof blockNumber hverify, reports_iff rfl⟩
  · intro hashes i blockNumber blockHash hfit hi
    exact exists_txProof hfit hi blockNumber blockHash

variable (vm : VmKind)

def soleState : AccountState := ⟨1, 500, emptyCodeHash, emptyStorageRoot, vm⟩

def soleAccount : Map Address AccountState := AList.singleton 7 (soleState vm)

def soleTrie : MutableTrie MemoryTrieDB :=
  finalState (stateTrieWithDb (soleAccount vm) ∅ (⟨[]⟩ : MemoryTrieDB))

theorem collisionFree_soleTrie :
    CollisionFree (hashedBytes (soleTrie vm) ∪ addressBytes (soleAccount vm)) := by
  have hlist : CollisionFree {e | e ∈ [0x80] :: (soleTrie vm).cache.map Prod.snd ++
      (soleAccount vm).entries.map fun entry => entry.1.toBytes} := by
    cases vm with
    | evm | zvm => exact collisionFree_of_nodup (by decide +kernel)
  refine hlist.mono ?_
  rintro e (he | he)
  · exact mem_append_left _ he
  · exact mem_append_right _ he

theorem soleTrie_built :
    stateTrieWithDb (soleAccount vm) ∅ (⟨[]⟩ : MemoryTrieDB) = .ok () (soleTrie vm) := by
  have hfree := (collisionFree_soleTrie vm).mono Set.subset_union_left
  obtain ⟨T, hT⟩ := stateTrieWithDb_clean (soleAccount vm) (⟨[]⟩ : MemoryTrieDB) hfree
  unfold soleTrie
  rw [hT]
  rfl

theorem lookup_soleAccount : (soleAccount vm).lookup 7 = some (soleState vm) :=
  AList.lookup_insert ∅

theorem evm_account_reported :
    (∃ r p, leafStorageRoot ∅ (⟨[]⟩ : MemoryTrieDB) 7 (soleState .evm) = .ok r ∧
      (soleTrie .evm).prove (accountKey 7) = .ok p ∧
      (accountProof 7 1 (soleTrie .evm).root p).verify = .ok true ∧
      (accountProof 7 1 (soleTrie .evm).root p).Reports (soleState .evm) r) ∧
    ∃ p : TxProof, p.blockNumber = 1 ∧ p.blockHash = 2 ∧ p.txIndex = 1 ∧
      p.root = root [5, 6] ∧ p.verify = .ok true := by
  constructor
  · obtain ⟨r, p, hr, hprove, hverify, hreports⟩ := light_proofs_iff.1 (soleAccount .evm) ∅
      (⟨[]⟩ : MemoryTrieDB) (soleTrie .evm) (soleTrie_built .evm) (collisionFree_soleTrie .evm) 7
      (soleState .evm) 1 (lookup_soleAccount .evm) (by decide)
    exact ⟨r, p, hr, hprove, hverify, hreports.mpr (.inl rfl)⟩
  · exact (@light_proofs_iff MemoryTrieDB _).2 [5, 6] 1 1 2 (by decide) (by decide)

/-- The proof of an account of the ZVM with the nonce 1 is accepted, and its nonce is 0. -/
theorem zvm_account_misreported :
    (soleAccount .zvm).lookup 7 = some (soleState .zvm) ∧ (soleState .zvm).isEmpty = false ∧
    ∃ p, (soleTrie .zvm).prove (accountKey 7) = .ok p ∧
      (accountProof 7 1 (soleTrie .zvm).root p).verify = .ok true ∧
      (accountProof 7 1 (soleTrie .zvm).root p).nonce = .ok 0 ∧ (soleState .zvm).nonce = 1 := by
  have hne : (soleState .zvm).isEmpty = false := by decide
  obtain ⟨r, nodes, hr, hprove, hverify⟩ := prove_account (soleTrie_built .zvm)
    (collisionFree_soleTrie .zvm) (lookup_soleAccount .zvm) hne
  have hdecode := decodeAccount_encodeAccountRlp
    (p := accountProof 7 1 (soleTrie .zvm).root
      ⟨accountKey 7, some (encodeAccountRlp (soleState .zvm) r), nodes⟩) rfl
  refine ⟨lookup_soleAccount .zvm, hne, _, hprove, verify_accountProof 1 hverify, ?_, rfl⟩
  unfold AccountProof.nonce AccountProof.field
  rw [hdecode]
  rfl

end Light

end ZbxChain
