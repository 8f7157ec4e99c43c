import ZbxChain.Trie.Uniform

/-!
# Signed snapshot manifests

The Merkle tree over the roots of the chunks (`zbx-sync/src/merkle.rs`), the digest of a manifest
and the check of the committee's signature on it (`zbx-sync/src/manifest.rs`), with the bitmap and
`bls_fast_agg_verify` of `zbx-threshold/src/bls_aggregate.rs`. The curve is a parameter.
-/

namespace ZbxChain

open List

namespace Sync

/-- The variants of `SyncError`. -/
inductive SyncError
  | peerDisconnected
  | invalidBlock (height : UInt64) (msg : String)
  | chunkHashMismatch (chunk : UInt64)
  | pivotNotFinalized (tip : UInt64)
  | noPeers
  | network (msg : String)
  | storage (msg : String)
  | timeout
  | interrupted (msg : String)
  | chunkRootMismatch (chunk : UInt64)
  | badManifestSignature (msg : String)
  deriving DecidableEq

abbrev SyncResult := Except (Fault SyncError)

/-! ## The tree of the chunks -/

def hashPair (l r : H256) : H256 := keccak256 (l.toBytes ++ r.toBytes)

def nextLayer : List H256 → List H256
  | [] => []
  | [l] => [hashPair l 0]
  | l :: r :: rest => hashPair l r :: nextLayer rest

def climb : Nat → List H256 → H256
  | _, [] => 0
  | _, [root] => root
  | 0, root :: _ => root
  | layers + 1, layer => climb layers (nextLayer layer)

/-- A layer above is at most as long as half of this one rounded up, so that as many layers as
there are leaves are enough. -/
def merkleRoot (leaves : List H256) : H256 := climb leaves.length leaves

structure MerklePathStep where
  sibling : H256
  isLeft : Bool
  deriving DecidableEq

def pathFrom : Nat → List H256 → Nat → List MerklePathStep
  | _, [], _ => []
  | _, [_], _ => []
  | 0, _, _ => []
  | layers + 1, layer, idx =>
    let isLeft := idx % 2 = 0
    let siblingIdx := if isLeft then idx + 1 else idx - 1
    ⟨layer[siblingIdx]?.getD 0, isLeft⟩ :: pathFrom layers (nextLayer layer) (idx / 2)

def merkleProof (leaves : List H256) (index : Nat) : Option (List MerklePathStep) :=
  if leaves.length ≤ index then none else some (pathFrom leaves.length leaves index)

def pathIndex : List MerklePathStep → Nat
  | [] => 0
  | step :: rest => (if step.isLeft then 0 else 1) + 2 * pathIndex rest

def pathRoot (leaf : H256) (path : List MerklePathStep) : H256 :=
  path.foldl (fun cur step =>
    if step.isLeft then hashPair cur step.sibling else hashPair step.sibling cur) leaf

def verifyProof (leaf : H256) (index : Nat) (path : List MerklePathStep) (root : H256) : Bool :=
  decide (pathIndex path = index) && decide (pathRoot leaf path = root)

def verifyChunkInclusion (chunkId : UInt64) (chunkRootAtId : H256) (path : List MerklePathStep)
    (manifestChunkRoot : H256) : SyncResult Unit :=
  if verifyProof chunkRootAtId chunkId.toNat path manifestChunkRoot then .ok ()
  else .error (.err (.chunkRootMismatch chunkId))

/-- `none` is the `expect` on an index that is out of range. -/
def buildInclusionProofs (chunkRoots : List H256) : Option (List (List MerklePathStep)) :=
  (List.range chunkRoots.length).mapM (merkleProof chunkRoots)

/-! ## What the tree proves -/

theorem length_nextLayer (layer : List H256) :
    (nextLayer layer).length = (layer.length + 1) / 2 := by
  fun_induction nextLayer layer with
  | case1 | case2 => simp
  | case3 l r rest ih =>
    simp only [length_cons, ih]
    omega

theorem getD_nextLayer (layer : List H256) (k : Nat) (h : 2 * k < layer.length) :
    (nextLayer layer)[k]?.getD 0 = hashPair (layer[2 * k]?.getD 0) (layer[2 * k + 1]?.getD 0) := by
  fun_induction nextLayer layer generalizing k with
  | case1 => simp at h
  | case2 l =>
    obtain rfl : k = 0 := by simp at h; omega
    rfl
  | case3 l r rest ih =>
    cases k with
    | zero => rfl
    | succ k => exact ih k (by simp at h; omega)

theorem pathFrom_leads {layers : Nat} {layer : List H256} {idx : Nat} (hidx : idx < layer.length)
    (hlayers : layer.length ≤ layers) : pathIndex (pathFrom layers layer idx) = idx ∧
      pathRoot (layer[idx]?.getD 0) (pathFrom layers layer idx) = climb layers layer := by
  induction layers generalizing layer idx with
  | zero => omega
  | succ layers ih =>
    match layer with
    | [] => cases hidx
    | [l] =>
      obtain rfl : idx = 0 := by simpa using hidx
      exact ⟨rfl, rfl⟩
    | l :: r :: rest =>
      have hlen := length_nextLayer (l :: r :: rest)
      obtain ⟨hindex, hroot⟩ := @ih (nextLayer (l :: r :: rest)) (idx / 2) (by omega)
        (by simp at hlen hlayers; omega)
      simp only [pathFrom, climb, pathIndex]
      rw [← hroot, getD_nextLayer _ _ (by omega), hindex]
      by_cases hleft : idx % 2 = 0
      · have heven : 2 * (idx / 2) = idx := by omega
        simp [hleft, heven, pathRoot]
      have hodd : 2 * (idx / 2) = idx - 1 ∧ idx - 1 + 1 = idx := by omega
      simp [hleft, hodd, pathRoot]
      omega

def layerStrings : List H256 → List Bytes
  | [] => []
  | [l] => [l.toBytes ++ (0 : H256).toBytes]
  | l :: r :: rest => (l.toBytes ++ r.toBytes) :: layerStrings rest

def climbStrings : Nat → List H256 → List Bytes
  | layers + 1, l :: r :: rest =>
    layerStrings (l :: r :: rest) ++ climbStrings layers (nextLayer (l :: r :: rest))
  | _, _ => []

theorem pair_inj {l r l' r' : H256} (h : l.toBytes ++ r.toBytes = l'.toBytes ++ r'.toBytes) :
    l = l' ∧ r = r' := by
  obtain ⟨hl, hr⟩ := append_inj h (by simp)
  exact ⟨H256.toBytes_injective hl, H256.toBytes_injective hr⟩

section

variable {S : Set Bytes} (hfree : CollisionFree S) {a b : List H256} (hlen : a.length = b.length)

include hfree hlen

theorem nextLayer_inj (ha : ∀ m ∈ layerStrings a, m ∈ S) (hb : ∀ m ∈ layerStrings b, m ∈ S)
    (h : nextLayer a = nextLayer b) : a = b := by
  fun_induction nextLayer a generalizing b with
  | case1 => exact (length_eq_zero_iff.mp hlen.symm).symm
  | case2 l =>
    obtain ⟨l', rfl⟩ := length_eq_one_iff.mp hlen.symm
    have heq := hfree.eq (ha _ mem_cons_self) (hb _ mem_cons_self) (cons.inj h).1
    rw [(pair_inj heq).1]
  | case3 l r rest ih =>
    match b, hlen with
    | l' :: r' :: rest', hlen =>
      simp only [layerStrings, forall_mem_cons] at ha hb
      obtain ⟨hhead, htail⟩ := cons.inj h
      obtain ⟨rfl, rfl⟩ := pair_inj (hfree.eq ha.1 hb.1 hhead)
      rw [ih (by simpa using hlen) ha.2 hb.2 htail]

theorem climb_inj {layers : Nat} (hlayers : a.length ≤ layers)
    (ha : ∀ m ∈ climbStrings layers a, m ∈ S) (hb : ∀ m ∈ climbStrings layers b, m ∈ S)
    (h : climb layers a = climb layers b) : a = b := by
  induction layers generalizing a b with
  | zero => simp_all
  | succ layers ih =>
    match a, b, hlen with
    | [], [], _ => rfl
    | [l], [l'], _ => simp_all [climb]
    | l :: r :: rest, l' :: r' :: rest', hlen =>
      simp only [climbStrings, forall_mem_append] at ha hb
      have hnext := length_nextLayer (l :: r :: rest)
      refine nextLayer_inj hfree hlen ha.1 hb.1 (ih ?_ ?_ ha.2 hb.2 h)
      · rw [hnext, length_nextLayer, hlen]
      · simp at hnext hlayers
        omega

end

theorem merkle_tree_sound (leaves : List H256) :
    (∀ index (h : index < leaves.length), ∃ path, merkleProof leaves index = some path ∧
      verifyProof leaves[index] index path (merkleRoot leaves) = true) ∧
    ∀ others : List H256, others.length = leaves.length →
      CollisionFree {m | m ∈ climbStrings leaves.length leaves ++ climbStrings others.length others} →
      merkleRoot others = merkleRoot leaves → others = leaves := by
  constructor
  · intro index h
    obtain ⟨hindex, hroot⟩ := pathFrom_leads h le_rfl
    rw [getElem?_eq_getElem h, Option.getD_some] at hroot
    exact ⟨_, if_neg (by omega), by simp [verifyProof, hindex, hroot, merkleRoot]⟩
  intro others hlen hfree h
  rw [merkleRoot, merkleRoot, hlen] at h
  rw [hlen] at hfree
  exact climb_inj hfree hlen hlen.le (fun m => mem_append_right _)
    (fun m => mem_append_left _) h

theorem three_chunks_bound : (∃ path, merkleProof [1, 2, 3] 2 = some path ∧
      verifyProof 3 2 path (merkleRoot [1, 2, 3]) = true) ∧
    merkleRoot [1, 2, 4] ≠ merkleRoot [1, 2, 3] := by
  obtain ⟨hproofs, hbinds⟩ := merkle_tree_sound [1, 2, 3]
  refine ⟨hproofs 2 (by decide), fun h => ?_⟩
  have heq := hbinds [1, 2, 4] rfl (collisionFree_of_nodup (by decide +kernel)) h
  exact absurd heq (by decide)

/-! ## The signature of the committee -/

structure ValidatorBitmap where
  bits : Bytes
  nValidators : Nat
  deriving DecidableEq

def ValidatorBitmap.isSet (b : ValidatorBitmap) (idx : Nat) : Bool :=
  if b.nValidators ≤ idx then false else (b.bits.getD (idx / 8) 0).toNat.testBit (idx % 8)

/-- `none` is the panic on a bitmap with too few bytes, which the peer can send. -/
def ValidatorBitmap.signedIndices (b : ValidatorBitmap) : Option (List Nat) :=
  if 8 * b.bits.length < b.nValidators then none
  else some ((List.range b.nValidators).filter b.isSet)

/-- The operations of `zbx_crypto::bls`: whether bytes are a key or a signature, and
`verify_aggregate`. -/
structure ThresholdBls where
  isPubkey : Bytes → Bool
  isSignature : Bytes → Bool
  verifyAggregate : Bytes → List Bytes → H256 → Bool

inductive BLSError
  | emptySignatureSet
  | invalidPublicKeyEncoding
  | invalidSignatureEncoding
  | aggregateVerificationFailed
  deriving DecidableEq

def BLSError.display : BLSError → String
  | .emptySignatureSet => "empty signature set: cannot aggregate zero signatures"
  | .invalidPublicKeyEncoding => "invalid BLS public key encoding (not a valid G1 point)"
  | .invalidSignatureEncoding => "invalid BLS signature encoding (not a valid G2 point)"
  | .aggregateVerificationFailed => "aggregate verification failed"

def blsFastAggVerify (B : ThresholdBls) (pubkeys : List Bytes) (message aggSig : Bytes) :
    Except BLSError Unit :=
  if pubkeys = [] then .error .emptySignatureSet
  else if pubkeys.all B.isPubkey = false then .error .invalidPublicKeyEncoding
  else if B.isSignature aggSig = false then .error .invalidSignatureEncoding
  else if B.verifyAggregate aggSig pubkeys (keccak256 message) then .ok ()
  else .error .aggregateVerificationFailed

/-- `ZBX_SNAPSHOT_MANIFEST_V1`. -/
def manifestDomainTag : Bytes :=
  [0x5a, 0x42, 0x58, 0x5f, 0x53, 0x4e, 0x41, 0x50, 0x53, 0x48, 0x4f, 0x54, 0x5f, 0x4d, 0x41, 0x4e,
    0x49, 0x46, 0x45, 0x53, 0x54, 0x5f, 0x56, 0x31]

def manifestBytes (pivotHeight : UInt64) (stateRoot chunkRoot : H256) (chunkCount : UInt64) :
    Bytes :=
  manifestDomainTag ++ beBytes 8 pivotHeight.toNat ++ stateRoot.toBytes ++ chunkRoot.toBytes ++
    beBytes 8 chunkCount.toNat

def manifestDigest (pivotHeight : UInt64) (stateRoot chunkRoot : H256) (chunkCount : UInt64) :
    H256 :=
  keccak256 (manifestBytes pivotHeight stateRoot chunkRoot chunkCount)

def signingKeys (validatorKeys : List (Address × Bytes)) : List Nat → SyncResult (List Bytes)
  | [] => .ok []
  | i :: rest =>
    match validatorKeys[i]? with
    | none => .error (.err (.badManifestSignature ("signer index " ++ toString i ++
        " out of range (n=" ++ toString validatorKeys.length ++ ")")))
    | some (_, pk) => do
      let keys ← signingKeys validatorKeys rest
      return pk :: keys

def verifyManifestSignature (B : ThresholdBls) (pivotHeight : UInt64) (stateRoot chunkRoot : H256)
    (chunkCount : UInt64) (blsQuorumSig : Bytes) (blsSigners : ValidatorBitmap)
    (validatorKeys : List (Address × Bytes)) (quorum : Nat) : SyncResult Unit :=
  if validatorKeys = [] then
    .error (.err (.badManifestSignature "validator key set empty — cannot verify"))
  else if blsSigners.nValidators ≠ validatorKeys.length then
    .error (.err (.badManifestSignature ("bitmap size " ++ toString blsSigners.nValidators ++
      " != validator set size " ++ toString validatorKeys.length)))
  else
    match blsSigners.signedIndices with
    | none => .error .panic
    | some indices =>
      if indices.length < quorum then
        .error (.err (.badManifestSignature (toString indices.length ++ " signers < quorum " ++
          toString quorum)))
      else do
        let keys ← signingKeys validatorKeys indices
        match blsFastAggVerify B keys
            (manifestDigest pivotHeight stateRoot chunkRoot chunkCount).toBytes blsQuorumSig with
        | .ok _ => .ok ()
        | .error e => .error (.err (.badManifestSignature ("pairing failed: " ++ e.display)))

/-! ## What has been verified -/

theorem nodup_of_signedIndices {b : ValidatorBitmap} {indices : List Nat}
    (h : b.signedIndices = some indices) : indices.Nodup := by
  unfold ValidatorBitmap.signedIndices at h
  split at h
  · cases h
  · cases h
    exact nodup_range.filter _

theorem signingKeys_eq_ok {validatorKeys : List (Address × Bytes)} {indices : List Nat}
    {keys : List Bytes} (h : signingKeys validatorKeys indices = .ok keys) :
    indices.map (fun i => (validatorKeys[i]?).map Prod.snd) = keys.map some := by
  induction indices generalizing keys with
  | nil =>
    cases h
    rfl
  | cons i rest ih =>
    unfold signingKeys at h
    split at h
    · cases h
    · next entry hkey =>
      obtain ⟨keys', hrest, hcons⟩ := bind_eq_ok.mp h
      cases hcons
      rw [map_cons, map_cons, ih hrest, hkey]
      rfl

theorem verifyAggregate_of_blsFastAggVerify {B : ThresholdBls} {pubkeys : List Bytes}
    {message aggSig : Bytes} (h : blsFastAggVerify B pubkeys message aggSig = .ok ()) :
    B.verifyAggregate aggSig pubkeys (keccak256 message) = true := by
  unfold blsFastAggVerify at h
  split_ifs at h with hnone hkeys hsig hverified
  exact hverified

theorem quorum_of_verifyManifestSignature {B : ThresholdBls} {pivotHeight : UInt64}
    {stateRoot chunkRoot : H256} {chunkCount : UInt64} {sig : Bytes} {signers : ValidatorBitmap}
    {validatorKeys : List (Address × Bytes)} {quorum : Nat}
    (h : verifyManifestSignature B pivotHeight stateRoot chunkRoot chunkCount sig signers
      validatorKeys quorum = .ok ()) :
    ∃ (positions : List Nat) (keys : List Bytes), positions.Nodup ∧ quorum ≤ positions.length ∧
      positions.map (fun i => (validatorKeys[i]?).map Prod.snd) = keys.map some ∧
      B.verifyAggregate sig keys
        (keccak256 (manifestDigest pivotHeight stateRoot chunkRoot chunkCount).toBytes) = true := by
  unfold verifyManifestSignature at h
  split_ifs at h with hempty hsize
  split at h
  · cases h
  · next indices hindices =>
    split_ifs at h with hfew
    obtain ⟨keys, hkeys, hverify⟩ := bind_eq_ok.mp h
    refine ⟨indices, keys, nodup_of_signedIndices hindices, Nat.not_lt.mp hfew,
      signingKeys_eq_ok hkeys, ?_⟩
    split at hverify
    · next hbls => exact verifyAggregate_of_blsFastAggVerify hbls
    · cases hverify

end Sync

/-!
## Checks of delivered leaves

`verify_chunk` and `verify_global_state_root` of `zbx-sync/src/snap_sync.rs`: a trie is built in
memory from leaves that a peer has delivered, and its root is compared.
-/

open MutableTrie

namespace Sync

structure Leaf where
  key : H256
  value : Bytes
  hsize : 64 + value.length < 2 ^ 62

structure StateChunk where
  id : UInt64
  startKey : H256
  endKey : H256
  stateRoot : H256
  chunkRoot : Option H256

def leafPairs (leaves : List Leaf) : List (Bytes × Bytes) :=
  leaves.map fun leaf => (leaf.key.toBytes, leaf.value)

def leafTrie (leaves : List Leaf) :
    EStateM.Result (Fault TrieError) (MutableTrie MemoryTrieDB) Unit :=
  insertAll (leafPairs leaves) (new ⟨[]⟩)

/-- The root of that trie. `what` begins the texts of the errors. -/
def rebuild (what : String) (leaves : List Leaf) : SyncResult H256 :=
  match leafTrie leaves with
  | .error .panic _ => .error .panic
  | .error (.err e) _ => .error (.err (.interrupted (what ++ " insert: " ++ e.display)))
  | .ok _ trie =>
    match commit trie with
    | .error .panic _ => .error .panic
    | .error (.err e) _ => .error (.err (.interrupted (what ++ " commit: " ++ e.display)))
    | .ok root _ => .ok root

def verifyChunk (chunk : StateChunk) (leaves : List Leaf) : SyncResult Unit :=
  if leaves.isEmpty then .error (.err (.chunkHashMismatch chunk.id))
  else if leaves.any fun leaf => leaf.key < chunk.startKey ∨ chunk.endKey < leaf.key then
    .error (.err (.chunkHashMismatch chunk.id))
  else
    match chunk.chunkRoot with
    | none => .error (.err (.interrupted ("chunk " ++ toString chunk.id ++
        " verification requested before manifest arrived")))
    | some expected => do
      let computed ← rebuild "trie" leaves
      if computed ≠ expected then .error (.err (.chunkHashMismatch chunk.id)) else .ok ()

def verifyGlobalStateRoot (pivotStateRoot : H256) (allChunks : List (List Leaf)) :
    SyncResult Unit := do
  let computed ← rebuild "global trie" allChunks.flatten
  if computed ≠ pivotStateRoot then
    .error (.err (.interrupted ("global state_root mismatch: computed " ++ H256.debug computed ++
      " expected " ++ H256.debug pivotStateRoot)))
  else .ok ()

/-! ## The map of the leaves -/

theorem commit_root {trie trie' : MutableTrie MemoryTrieDB} {root : H256}
    (h : commit trie = .ok root trie') : root = trie.root := by
  unfold commit at h
  split at h
  · exact ((EStateM.Result.ok.inj h).1).symm
  · cases h

theorem leafTrie_of_rebuild {what : String} {leaves : List Leaf} {root : H256}
    (h : rebuild what leaves = .ok root) :
    ∃ trie, leafTrie leaves = .ok () trie ∧ trie.root = root := by
  unfold rebuild at h
  cases htrie : leafTrie leaves with
  | error e trie =>
    rw [htrie] at h
    cases e <;> cases h
  | ok u trie =>
    rw [htrie] at h
    dsimp only at h
    cases hcommit : commit trie with
    | error e trie' =>
      rw [hcommit] at h
      cases e <;> cases h
    | ok root' trie' =>
      rw [hcommit] at h
      cases h
      exact ⟨trie, rfl, (commit_root hcommit).symm⟩

def IsStateMap (leaves : List Leaf) (root : H256) : Prop :=
  ∃ t, Radix.Canonical t ∧
    TrieOp.MapOf t (overriding (leafPairs leaves) fun _ => none) ∧
      rootHash t = root

theorem map_of_verifyGlobalStateRoot {pivotStateRoot : H256} {allChunks : List (List Leaf)}
    (hfree : CollisionFree (hashedBytes (finalState (leafTrie allChunks.flatten))))
    (h : verifyGlobalStateRoot pivotStateRoot allChunks = .ok ()) :
    IsStateMap allChunks.flatten pivotStateRoot := by
  obtain ⟨computed, hrebuild, hcompare⟩ := bind_eq_ok.mp h
  split_ifs at hcompare with hdiffer
  obtain ⟨trie, htrie, hroot⟩ := leafTrie_of_rebuild hrebuild
  have hpairs : ∀ e ∈ leafPairs allChunks.flatten, ∀ t, NibbleTree.Uniform 64 t →
      NibbleTree.Uniform 64 (Radix.insert t (Nibbles.fromBytes e.1) e.2) := by
    intro e he t ht
    obtain ⟨leaf, -, rfl⟩ := List.mem_map.mp he
    refine ht.insert ?_ leaf.hsize
    rw [Nibbles.length_fromBytes, H256.length_toBytes]
  obtain ⟨T, hrun, hT⟩ := insertAll_new (fun _ => NibbleTree.Uniform.fits) hpairs _
    nofun hfree
  have hsame : EStateM.Result.ok () T = EStateM.Result.ok () trie := hrun.symm.trans htrie
  obtain ⟨-, rfl⟩ := EStateM.Result.ok.inj hsame
  exact ⟨_, canonical_insertPairs .nil _, mapOf_insertPairs_nil _,
    hT.symm.trans (hroot.trans (not_not.mp hdiffer))⟩

end Sync

end ZbxChain
