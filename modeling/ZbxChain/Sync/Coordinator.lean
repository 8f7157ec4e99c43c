import ZbxChain.Lib.Interaction
import ZbxChain.Sync.Manifest
import ZbxChain.Types.Header

/-!
# Bootstrapping against a peer

`SyncCoordinator` of `zbx-sync/src/coordinator.rs`. The peer is the environment of the run: it
answers each request as it likes, and may take all earlier ones into account.
-/

namespace ZbxChain

open List

namespace Sync

open Interaction

/-! ## The peer -/

structure SnapshotMeta where
  pivotHeight : UInt64
  stateRoot : H256
  chunkRoots : List H256
  chunkRoot : H256
  blsQuorumSig : Bytes
  blsSigners : ValidatorBitmap

/-- The methods of `SyncPeer`. -/
inductive PeerRequest
  | tip
  | getHeaders (start : UInt64) (count : UInt32)
  | getSnapshotMeta (pivotHeight : UInt64)
  | getChunk (pivotHeight chunkId : UInt64)
  | reportMisbehavior (reason : String)

def PeerReply : PeerRequest → Type
  | .tip => Except SyncError (UInt64 × H256)
  | .getHeaders _ _ => Except SyncError (List SealedHeader)
  | .getSnapshotMeta _ => Except SyncError SnapshotMeta
  | .getChunk _ _ => Except SyncError (List Leaf)
  | .reportMisbehavior _ => Unit

abbrev SyncM := Dialogue (Fault SyncError) PeerReply

namespace SyncPeer

def tip : SyncM (Except SyncError (UInt64 × H256)) := request PeerRequest.tip

def getHeaders (start : UInt64) (count : UInt32) : SyncM (Except SyncError (List SealedHeader)) :=
  request (PeerRequest.getHeaders start count)

def getSnapshotMeta (pivotHeight : UInt64) : SyncM (Except SyncError SnapshotMeta) :=
  request (PeerRequest.getSnapshotMeta pivotHeight)

def getChunk (pivotHeight chunkId : UInt64) : SyncM (Except SyncError (List Leaf)) :=
  request (PeerRequest.getChunk pivotHeight chunkId)

def reportMisbehavior (reason : String) : SyncM Unit :=
  request (PeerRequest.reportMisbehavior reason)

end SyncPeer

/-- The operator `?`. -/
def orFail {α : Type} : Except SyncError α → SyncM α
  | .ok a => pure a
  | .error e => throw (.err e)

def orReport {α : Type} (reason : String) : SyncResult α → SyncM α
  | .ok a => pure a
  | .error (.err e) => do
    SyncPeer.reportMisbehavior reason
    throw (.err e)
  | .error .panic => throw .panic

/-! ## The coordinator -/

def coordSafePivot : UInt64 := 64

structure SyncCoordinator where
  headersPerCall : UInt32
  validatorKeys : List (Address × Bytes)
  quorum : Nat
  hquorum : validatorKeys ≠ [] ∧ 0 < quorum ∧ quorum ≤ validatorKeys.length

structure FastSyncOutcome where
  pivotHeight : UInt64
  pivotStateRoot : H256
  headersDownloaded : UInt64
  chunksVerified : UInt64
  deriving DecidableEq

namespace SyncCoordinator

/-- `none` is the failed assertion. -/
def new (validatorKeys : List (Address × Bytes)) (quorum : Nat) : Option SyncCoordinator :=
  if h : validatorKeys ≠ [] ∧ 0 < quorum ∧ quorum ≤ validatorKeys.length then
    some ⟨256, validatorKeys, quorum, h⟩
  else none

end SyncCoordinator

/-! ## Headers -/

structure HeaderState where
  prevHash : Option H256
  nextFrom : UInt64
  totalHeaders : UInt64
  pivotStateRoot : Option H256

def HeaderState.start : HeaderState := ⟨none, 1, 0, none⟩

def HeaderState.push (pivotHeight : UInt64) (st : HeaderState) (h : SealedHeader) : HeaderState where
  prevHash := some h.hash
  nextFrom := st.nextFrom + 1
  totalHeaders := st.totalHeaders + 1
  pivotStateRoot := if h.number = pivotHeight then some h.stateRoot else st.pivotStateRoot

def acceptHeader (pivotHeight : UInt64) (st : HeaderState) (h : SealedHeader) :
    Except SyncError HeaderState :=
  if h.number ≠ st.nextFrom then
    .error (.invalidBlock h.number ("expected height " ++ toString st.nextFrom))
  else if st.prevHash.any (· ≠ h.parentHash) then
    .error (.invalidBlock h.number "parent hash break")
  else .ok (st.push pivotHeight h)

def acceptBatch (pivotHeight : UInt64) (st : HeaderState) :
    List SealedHeader → Except SyncError HeaderState
  | [] => .ok st
  | h :: rest => do
    let st ← acceptHeader pivotHeight st h
    acceptBatch pivotHeight st rest

def wantedHeaders (c : SyncCoordinator) (pivotHeight : UInt64) (st : HeaderState) : UInt32 :=
  min (pivotHeight - st.nextFrom + 1).toUInt32 c.headersPerCall

def downloadHeaders (c : SyncCoordinator) (pivotHeight : UInt64) :
    Nat → HeaderState → SyncM HeaderState
  | 0, st => if st.nextFrom ≤ pivotHeight then throw .panic else pure st
  | batches + 1, st =>
    if st.nextFrom ≤ pivotHeight then do
      let reply ← SyncPeer.getHeaders st.nextFrom (wantedHeaders c pivotHeight st)
      let batch ← orFail reply
      if batch.isEmpty then
        throw (.err (.interrupted ("peer returned 0 headers from " ++ toString st.nextFrom)))
      let st ← orFail (acceptBatch pivotHeight st batch)
      downloadHeaders c pivotHeight batches st
    else pure st

/-! ## The manifest -/

def checkManifest (pivotHeight : UInt64) (pivotStateRoot : H256) (manifest : SnapshotMeta) :
    Except SyncError Unit :=
  if manifest.pivotHeight ≠ pivotHeight then
    .error (.interrupted ("manifest pivot mismatch: " ++ toString manifest.pivotHeight ++ " vs " ++
      toString pivotHeight))
  else if manifest.stateRoot ≠ pivotStateRoot then
    .error (.interrupted "manifest state_root != pivot header state_root")
  else if manifest.chunkRoots = [] then .error (.interrupted "manifest has zero chunks")
  else .ok ()

def checkChunkRoot (manifest : SnapshotMeta) : SyncResult Unit :=
  if merkleRoot manifest.chunkRoots ≠ manifest.chunkRoot then
    .error (.err (.badManifestSignature ("manifest.chunk_root " ++ H256.debug manifest.chunkRoot ++
      " != merkle_root(chunk_roots) " ++ H256.debug (merkleRoot manifest.chunkRoots))))
  else .ok ()

def SnapshotMeta.chunkCount (manifest : SnapshotMeta) : UInt64 :=
  UInt64.ofNat manifest.chunkRoots.length

def checkSignature (B : ThresholdBls) (c : SyncCoordinator) (manifest : SnapshotMeta) :
    SyncResult Unit :=
  if c.validatorKeys ≠ [] then
    verifyManifestSignature B manifest.pivotHeight manifest.stateRoot manifest.chunkRoot
      manifest.chunkCount manifest.blsQuorumSig manifest.blsSigners c.validatorKeys c.quorum
  else .ok ()

/-! ## Chunks -/

def fetchChunk (pivotHeight : UInt64) (pivotStateRoot : H256) (manifest : SnapshotMeta)
    (proofs : List (List MerklePathStep)) (idx : Nat) (chunkRoot : H256) : SyncM (List Leaf) := do
  let chunkId := UInt64.ofNat idx
  match proofs[idx]? with
  | none => throw .panic
  | some path =>
    orReport "chunk_inclusion_proof_failed"
      (verifyChunkInclusion chunkId chunkRoot path manifest.chunkRoot)
    let reply ← SyncPeer.getChunk pivotHeight chunkId
    match reply with
    | .error e => orReport "chunk_fetch_error" (.error (.err e))
    | .ok [] => orReport "chunk_missing" (.error (.err (.chunkRootMismatch chunkId)))
    | .ok (leaf :: rest) => do
      orReport "chunk_payload_tampered"
        (verifyChunk ⟨chunkId, 0, BitVec.allOnes 256, pivotStateRoot, some chunkRoot⟩ (leaf :: rest))
      return leaf :: rest

def fetchChunks (pivotHeight : UInt64) (pivotStateRoot : H256) (manifest : SnapshotMeta)
    (proofs : List (List MerklePathStep)) : Nat → List H256 → SyncM (List (List Leaf))
  | _, [] => pure []
  | idx, chunkRoot :: rest => do
    let leaves ← fetchChunk pivotHeight pivotStateRoot manifest proofs idx chunkRoot
    let others ← fetchChunks pivotHeight pivotStateRoot manifest proofs (idx + 1) rest
    return leaves :: others

/-! ## The whole run -/

def pickPivot : SyncM UInt64 := do
  let reply ← SyncPeer.tip
  let (tip, _) ← orFail reply
  if tip < coordSafePivot then throw (.err (.pivotNotFinalized tip))
  return tip - coordSafePivot

def fetchManifest (B : ThresholdBls) (c : SyncCoordinator) (pivotHeight : UInt64)
    (pivotStateRoot : H256) : SyncM SnapshotMeta := do
  let reply ← SyncPeer.getSnapshotMeta pivotHeight
  let manifest ← orFail reply
  orFail (checkManifest pivotHeight pivotStateRoot manifest)
  orReport "manifest_chunk_root_mismatch" (checkChunkRoot manifest)
  orReport "bad_manifest_signature" (checkSignature B c manifest)
  return manifest

def fetchState (pivotHeight : UInt64) (pivotStateRoot : H256) (manifest : SnapshotMeta) :
    SyncM (List (List Leaf)) :=
  match buildInclusionProofs manifest.chunkRoots with
  | none => throw .panic
  | some proofs => do
    let allLeaves ←
      fetchChunks pivotHeight pivotStateRoot manifest proofs 0 manifest.chunkRoots
    orReport "global_state_root_mismatch" (verifyGlobalStateRoot pivotStateRoot allLeaves)
    return allLeaves

def SyncCoordinator.run (B : ThresholdBls) (c : SyncCoordinator) (batches : Nat) :
    SyncM FastSyncOutcome := do
  let pivotHeight ← pickPivot
  let st ← downloadHeaders c pivotHeight batches .start
  match st.pivotStateRoot with
  | none => throw (.err (.interrupted "pivot header missing from responses"))
  | some pivotStateRoot => do
    let manifest ← fetchManifest B c pivotHeight pivotStateRoot
    let allLeaves ← fetchState pivotHeight pivotStateRoot manifest
    return ⟨pivotHeight, pivotStateRoot, st.totalHeaders, UInt64.ofNat allLeaves.length⟩

/-! ## What the peer has sent -/

def sentList {α : Type} : Except SyncError (List α) → List α
  | .ok l => l
  | .error _ => []

def headersIn : (q : PeerRequest) × PeerReply q → List SealedHeader
  | ⟨.getHeaders _ _, reply⟩ => sentList reply
  | _ => []

def manifestsIn : (q : PeerRequest) × PeerReply q → List SnapshotMeta
  | ⟨.getSnapshotMeta _, reply⟩ => sentList (reply.map fun manifest => [manifest])
  | _ => []

def leavesIn : (q : PeerRequest) × PeerReply q → List Leaf
  | ⟨.getChunk _ _, reply⟩ => sentList reply
  | _ => []

variable (tr : Transcript PeerReply)

def headersOf : List SealedHeader := tr.flatMap headersIn

def manifestsOf : List SnapshotMeta := tr.flatMap manifestsIn

def leavesOf : List Leaf := tr.flatMap leavesIn

def Sent (headers : List SealedHeader) (manifests : List SnapshotMeta)
    (leaves : List Leaf) : Prop :=
  headersOf tr = headers ∧ manifestsOf tr = manifests ∧ leavesOf tr = leaves

theorem sent_nil : Sent [] [] [] [] := ⟨rfl, rfl, rfl⟩

variable {root : H256} {st st' : HeaderState} {headers : List SealedHeader} {h : SealedHeader}
  {B : ThresholdBls} {α : Type} {pivotHeight : UInt64} {Q : α → Transcript PeerReply → Prop}

theorem Sent.append {tr tr' : Transcript PeerReply} {headers' : List SealedHeader}
    {manifests manifests' : List SnapshotMeta} {leaves leaves' : List Leaf}
    (h : Sent tr headers manifests leaves) (h' : Sent tr' headers' manifests' leaves') :
    Sent (tr ++ tr') (headers ++ headers') (manifests ++ manifests') (leaves ++ leaves') := by
  obtain ⟨rfl, rfl, rfl⟩ := h
  obtain ⟨rfl, rfl, rfl⟩ := h'
  exact ⟨flatMap_append, flatMap_append, flatMap_append⟩

section

variable {β : Type} {k : β → SyncM α}

theorem delivers_bind_orFail {x : Except SyncError β} (h : ∀ b, x = .ok b → Delivers Q (k b)) :
    Delivers Q (orFail x >>= k) := by
  cases x with
  | ok b => exact h b rfl
  | error e => exact delivers_throw _

theorem delivers_bind_orReport {reason : String} {x : SyncResult β}
    (h : ∀ b, x = .ok b → Delivers Q (k b)) : Delivers Q (orReport reason x >>= k) := by
  cases x with
  | ok b => exact h b rfl
  | error e =>
    cases e with
    | panic => exact delivers_throw _
    | err e => exact fun _ => delivers_throw _

end

/-! ## The loop over headers -/

structure Accepted (pivotHeight : UInt64) (headers : List SealedHeader) (st : HeaderState) :
    Prop where
  next : st.nextFrom = UInt64.ofNat (headers.length + 1)
  heights : ∀ i h, headers[i]? = some h → h.number = UInt64.ofNat (i + 1)
  linked : ∀ i h h', headers[i]? = some h → headers[i + 1]? = some h' → h'.parentHash = h.hash
  last : st.prevHash = headers.getLast?.map SealedHeader.hash
  pivotRoot : ∀ root, st.pivotStateRoot = some root →
    ∃ (i : Nat) (h : SealedHeader), headers[i]? = some h ∧ h.number = pivotHeight ∧
      h.stateRoot = root
  begun : headers ≠ [] → 0 < pivotHeight.toNat

theorem accepted_start (pivotHeight : UInt64) : Accepted pivotHeight [] .start where
  next := rfl
  heights := fun i h hi => by cases hi
  linked := fun i h h' hi => by cases hi
  last := rfl
  pivotRoot := fun root hroot => by cases hroot
  begun := fun hne => absurd rfl hne

theorem getElem?_concat_cases {l : List α} {a b : α} {i : Nat} (h : (l ++ [a])[i]? = some b) :
    l[i]? = some b ∨ i = l.length ∧ b = a := by
  rw [getElem?_append] at h
  split at h
  · exact .inl h
  · next hi =>
    obtain ⟨hzero, hb⟩ := List.getElem?_eq_some_iff.mp h
    rw [length_singleton] at hzero
    refine .inr ⟨by omega, ?_⟩
    rw [← hb, getElem_singleton]

theorem of_acceptHeader (hstep : acceptHeader pivotHeight st h = .ok st') :
    h.number = st.nextFrom ∧ (∀ p, st.prevHash = some p → h.parentHash = p) ∧
      st' = st.push pivotHeight h := by
  unfold acceptHeader at hstep
  split_ifs at hstep with hnumber hparent
  refine ⟨not_not.mp hnumber, fun p hp => ?_, (Except.ok.inj hstep).symm⟩
  rw [hp, Option.any_some] at hparent
  by_contra hne
  exact hparent (decide_eq_true (Ne.symm hne))

theorem Accepted.snoc (hacc : Accepted pivotHeight headers st) (hpos : 0 < pivotHeight.toNat)
    (hstep : acceptHeader pivotHeight st h = .ok st') :
    Accepted pivotHeight (headers ++ [h]) st' := by
  obtain ⟨hnumber, hparent, rfl⟩ := of_acceptHeader hstep
  have hheight : h.number = UInt64.ofNat (headers.length + 1) := hnumber.trans hacc.next
  refine ⟨?_, ?_, ?_, ?_, ?_, fun _ => hpos⟩
  · rw [length_append, length_singleton, UInt64.ofNat_add _ 1, ← hacc.next]
    rfl
  · intro i h' hi
    rcases getElem?_concat_cases hi with hold | ⟨rfl, rfl⟩
    · exact hacc.heights i h' hold
    · exact hheight
  · intro i h₁ h₂ h₁i h₂i
    have hless : headers[i]? = some h₁ := by
      obtain ⟨hlen, -⟩ := List.getElem?_eq_some_iff.mp h₂i
      rw [length_append, length_singleton] at hlen
      rwa [getElem?_append_left (by omega)] at h₁i
    rcases getElem?_concat_cases h₂i with hold | ⟨hlast, rfl⟩
    · exact hacc.linked i h₁ h₂ hless hold
    -- the new header stands after the last one, whose hash has been kept
    have hprev : headers.getLast? = some h₁ := by
      rw [getLast?_eq_getElem?, ← hlast]
      exact hless
    refine hparent _ ?_
    rw [hacc.last, hprev]
    rfl
  · rw [getLast?_concat]
    rfl
  · intro root hroot
    unfold HeaderState.push at hroot
    split_ifs at hroot with hpivot
    · refine ⟨headers.length, h, by simp, hpivot, Option.some.inj hroot⟩
    obtain ⟨i, h', hi, hnum, hstate⟩ := hacc.pivotRoot root hroot
    refine ⟨i, h', ?_, hnum, hstate⟩
    rw [List.getElem?_append_left (List.getElem?_eq_some_iff.mp hi).1]
    exact hi

theorem Accepted.batch {batch : List SealedHeader} (hacc : Accepted pivotHeight headers st)
    (hpos : 0 < pivotHeight.toNat) (h : acceptBatch pivotHeight st batch = .ok st') :
    Accepted pivotHeight (headers ++ batch) st' := by
  induction batch generalizing headers st with
  | nil =>
    cases h
    rw [append_nil]
    exact hacc
  | cons header batch ih =>
    obtain ⟨st₁, hfirst, hrest⟩ := bind_eq_ok.mp h
    have hall := ih (hacc.snoc hpos hfirst) hrest
    rwa [append_assoc, singleton_append] at hall

theorem Accepted.pos_of_le (hacc : Accepted pivotHeight headers st)
    (hle : st.nextFrom ≤ pivotHeight) : 0 < pivotHeight.toNat := by
  by_cases hnil : headers = []
  · have hone := hacc.next
    rw [hnil] at hone
    rw [hone] at hle
    exact UInt64.le_iff_toNat_le.mp hle
  · exact hacc.begun hnil

theorem delivers_downloadHeaders (c : SyncCoordinator) (pivotHeight : UInt64) (batches : Nat)
    (hacc : Accepted pivotHeight headers st) :
    Delivers (fun st' tr => ∃ more, Sent tr more [] [] ∧ Accepted pivotHeight (headers ++ more) st')
      (downloadHeaders c pivotHeight batches st) := by
  have hdone : ∃ more, Sent [] more [] [] ∧ Accepted pivotHeight (headers ++ more) st :=
    ⟨[], sent_nil, by rw [append_nil]; exact hacc⟩
  induction batches generalizing headers st with
  | zero =>
    unfold downloadHeaders
    split
    · exact delivers_throw _
    · exact delivers_pure hdone
  | succ batches ih =>
    unfold downloadHeaders
    split
    · next hle =>
      have hpos := hacc.pos_of_le hle
      have hreply : Delivers (fun reply tr => Sent tr (sentList reply) [] [])
          (SyncPeer.getHeaders st.nextFrom (wantedHeaders c pivotHeight st)) :=
        delivers_request (q := PeerRequest.getHeaders _ _) fun reply =>
          ⟨append_nil _, rfl, rfl⟩
      refine hreply.bind fun reply tr hsent => delivers_bind_orFail fun batch hbatch => ?_
      subst hbatch
      split
      · exact delivers_throw _
      refine delivers_bind_orFail fun st' hst' => ?_
      have hacc' := hacc.batch hpos hst'
      refine (ih hacc' ⟨[], sent_nil, by rw [append_nil]; exact hacc'⟩).mono ?_
      rintro st'' tr'' ⟨more, hmore, hacc''⟩
      refine ⟨batch ++ more, hsent.append hmore, ?_⟩
      rw [← append_assoc]
      exact hacc''
    · exact delivers_pure hdone

/-! ## What the loop has accepted -/

/-- A stretch of the headers has the heights from 1 to the pivot, each header is linked to the one
before it, and the last one has the state root. The stretch is at the beginning, unless the heights
have wrapped. -/
def IsPivotChain (headers : List SealedHeader) (pivotHeight : UInt64) (root : H256) : Prop :=
  ∃ before chain after, headers = before ++ chain ++ after ∧ chain.length = pivotHeight.toNat ∧
    (∀ i h, chain[i]? = some h → h.number.toNat = i + 1) ∧
    (∀ i h h', chain[i]? = some h → chain[i + 1]? = some h' → h'.parentHash = h.hash) ∧
    (∃ h, chain.getLast? = some h ∧ h.stateRoot = root) ∧
    (headers.length < 2 ^ 64 → before = [])

theorem Accepted.isPivotChain (hacc : Accepted pivotHeight headers st)
    (hroot : st.pivotStateRoot = some root) : IsPivotChain headers pivotHeight root := by
  obtain ⟨i, h, hi, hnumber, hstate⟩ := hacc.pivotRoot root hroot
  obtain ⟨hlen, -⟩ := List.getElem?_eq_some_iff.mp hi
  have hpos := hacc.begun (ne_nil_of_length_pos (by omega))
  have hpivot : (i + 1) % 2 ^ 64 = pivotHeight.toNat := by
    rw [← hnumber, hacc.heights i h hi, UInt64.toNat_ofNat']
  -- the stretch begins where the number of headers is a multiple of the range of heights
  obtain ⟨k, hk, hwrap⟩ : ∃ k, i + 1 = k + pivotHeight.toNat ∧ k % 2 ^ 64 = 0 :=
    ⟨i + 1 - pivotHeight.toNat, by omega, by omega⟩
  have hget : ∀ j h', ((headers.drop k).take pivotHeight.toNat)[j]? = some h' →
      j < pivotHeight.toNat ∧ headers[k + j]? = some h' := by
    intro j h' hj
    rw [getElem?_take] at hj
    split_ifs at hj with hless
    rw [getElem?_drop] at hj
    exact ⟨hless, hj⟩
  have hlength : ((headers.drop k).take pivotHeight.toNat).length = pivotHeight.toNat := by
    rw [length_take, length_drop]
    omega
  refine ⟨headers.take k, (headers.drop k).take pivotHeight.toNat,
    (headers.drop k).drop pivotHeight.toNat, ?_, hlength, ?_, ?_, ⟨h, ?_, hstate⟩, ?_⟩
  · rw [append_assoc, take_append_drop, take_append_drop]
  · intro j h' hj
    obtain ⟨hless, hj⟩ := hget j h' hj
    rw [hacc.heights _ h' hj, UInt64.toNat_ofNat']
    omega
  · intro j h₁ h₂ hj₁ hj₂
    exact hacc.linked (k + j) h₁ h₂ (hget j h₁ hj₁).2 (hget (j + 1) h₂ hj₂).2
  · rw [getLast?_eq_getElem?, hlength, getElem?_take, if_pos (by omega),
      getElem?_drop]
    have hindex : k + (pivotHeight.toNat - 1) = i := by omega
    rw [hindex]
    exact hi
  intro hsmall
  have hzero : k = 0 := by omega
  rw [hzero, take_zero]

/-! ## The manifest and the chunks -/

theorem delivers_pickPivot : Delivers (fun _ tr => Sent tr [] [] []) pickPivot := by
  have hreply : Delivers (fun _ tr => Sent tr [] [] []) SyncPeer.tip :=
    delivers_request (q := PeerRequest.tip) fun _ => ⟨rfl, rfl, rfl⟩
  refine hreply.bind fun reply tr hsent => delivers_bind_orFail fun ⟨tip, hash⟩ _ => ?_
  dsimp only
  split
  · exact delivers_throw _
  · exact delivers_pure (by rw [append_nil]; exact hsent)

structure Bound (B : ThresholdBls) (c : SyncCoordinator) (pivotHeight : UInt64) (root : H256)
    (manifest : SnapshotMeta) : Prop where
  height : manifest.pivotHeight = pivotHeight
  stateRoot : manifest.stateRoot = root
  chunkRoot : merkleRoot manifest.chunkRoots = manifest.chunkRoot
  signature : verifyManifestSignature B manifest.pivotHeight manifest.stateRoot manifest.chunkRoot
    manifest.chunkCount manifest.blsQuorumSig manifest.blsSigners c.validatorKeys c.quorum = .ok ()

theorem bound_of_checks {c : SyncCoordinator} {manifest : SnapshotMeta}
    (hfirst : checkManifest pivotHeight root manifest = .ok ())
    (hroot : checkChunkRoot manifest = .ok ()) (hsig : checkSignature B c manifest = .ok ()) :
    Bound B c pivotHeight root manifest := by
  unfold checkManifest at hfirst
  split_ifs at hfirst with hheight hstate hchunks
  unfold checkChunkRoot at hroot
  split_ifs at hroot with hdiffer
  unfold checkSignature at hsig
  rw [if_pos c.hquorum.1] at hsig
  exact ⟨not_not.mp hheight, not_not.mp hstate, not_not.mp hdiffer, hsig⟩

theorem delivers_fetchManifest (B : ThresholdBls) (c : SyncCoordinator) (pivotHeight : UInt64)
    (root : H256) :
    Delivers (fun manifest tr => Sent tr [] [manifest] [] ∧ Bound B c pivotHeight root manifest)
      (fetchManifest B c pivotHeight root) := by
  have hreply : Delivers (fun reply tr => Sent tr [] (sentList (reply.map fun m => [m])) [])
      (SyncPeer.getSnapshotMeta pivotHeight) :=
    delivers_request (q := PeerRequest.getSnapshotMeta _) fun reply => ⟨rfl, append_nil _, rfl⟩
  refine hreply.bind fun reply tr hsent => delivers_bind_orFail fun manifest hmanifest => ?_
  subst hmanifest
  refine delivers_bind_orFail fun _ hfirst => delivers_bind_orReport fun _ hroot => ?_
  refine delivers_bind_orReport fun _ hsig => ?_
  refine delivers_pure ⟨?_, bound_of_checks hfirst hroot hsig⟩
  rw [append_nil]
  exact hsent

theorem delivers_fetchChunk (pivotHeight : UInt64) (root : H256) (manifest : SnapshotMeta)
    (proofs : List (List MerklePathStep)) (idx : Nat) (chunkRoot : H256) :
    Delivers (fun leaves tr => Sent tr [] [] leaves)
      (fetchChunk pivotHeight root manifest proofs idx chunkRoot) := by
  unfold fetchChunk
  cases proofs[idx]? with
  | none => exact delivers_throw _
  | some path =>
    refine delivers_bind_orReport fun _ _ => ?_
    have hreply : Delivers (fun reply tr => Sent tr [] [] (sentList reply))
        (SyncPeer.getChunk pivotHeight (UInt64.ofNat idx)) :=
      delivers_request (q := PeerRequest.getChunk _ _) fun reply => ⟨rfl, rfl, append_nil _⟩
    refine hreply.bind fun reply tr hsent => ?_
    cases reply with
    | error e => exact fun _ => delivers_throw _
    | ok leaves =>
      cases leaves with
      | nil => exact fun _ => delivers_throw _
      | cons leaf rest =>
        refine delivers_bind_orReport fun _ _ => delivers_pure ?_
        rw [append_nil]
        exact hsent

theorem delivers_fetchChunks (pivotHeight : UInt64) (root : H256) (manifest : SnapshotMeta)
    (proofs : List (List MerklePathStep)) (idx : Nat) (chunkRoots : List H256) :
    Delivers (fun allLeaves tr => Sent tr [] [] allLeaves.flatten)
      (fetchChunks pivotHeight root manifest proofs idx chunkRoots) := by
  induction chunkRoots generalizing idx with
  | nil => exact delivers_pure sent_nil
  | cons chunkRoot rest ih =>
    refine (delivers_fetchChunk pivotHeight root manifest proofs idx chunkRoot).bind ?_
    intro leaves tr hsent
    refine (ih (idx + 1)).bind fun others tr' hsent' => delivers_pure ?_
    rw [append_nil]
    exact hsent.append hsent'

theorem delivers_fetchState (pivotHeight : UInt64) (root : H256) (manifest : SnapshotMeta) :
    Delivers (fun allLeaves tr => Sent tr [] [] allLeaves.flatten ∧
      verifyGlobalStateRoot root allLeaves = .ok ()) (fetchState pivotHeight root manifest) := by
  unfold fetchState
  cases buildInclusionProofs manifest.chunkRoots with
  | none => exact delivers_throw _
  | some proofs =>
    refine (delivers_fetchChunks pivotHeight root manifest proofs 0 manifest.chunkRoots).bind ?_
    intro allLeaves tr hsent
    refine delivers_bind_orReport fun _ hglobal => delivers_pure ⟨?_, hglobal⟩
    rw [append_nil]
    exact hsent

/-! ## Soundness -/

def manifestMessage (pivotHeight : UInt64) (stateRoot chunkRoot : H256) (chunkCount : UInt64) :
    H256 :=
  keccak256 (manifestDigest pivotHeight stateRoot chunkRoot chunkCount).toBytes

/-- What a peer has to have sent for a run to succeed. `Signed key message` says that the owner of
the key has signed the message. -/
structure Synced (B : ThresholdBls) (Signed : Bytes → H256 → Prop) (c : SyncCoordinator)
    (tr : Transcript PeerReply) (outcome : FastSyncOutcome) : Prop where
  chain : IsPivotChain (headersOf tr) outcome.pivotHeight outcome.pivotStateRoot
  signed : ∃ manifest, manifestsOf tr = [manifest] ∧ ∃ (positions : List Nat) (keys : List Bytes),
    positions.Nodup ∧ c.quorum ≤ positions.length ∧
    positions.map (fun i => (c.validatorKeys[i]?).map Prod.snd) = keys.map some ∧
    B.verifyAggregate manifest.blsQuorumSig keys (manifestMessage outcome.pivotHeight
      outcome.pivotStateRoot (merkleRoot manifest.chunkRoots) manifest.chunkCount) = true ∧
    ∀ key ∈ keys, Signed key (manifestMessage outcome.pivotHeight outcome.pivotStateRoot
      (merkleRoot manifest.chunkRoots) manifest.chunkCount)
  state : IsStateMap (leavesOf tr) outcome.pivotStateRoot

theorem delivers_run {Signed : Bytes → H256 → Prop}
    (hbls : ∀ sig keys message, B.verifyAggregate sig keys message = true →
      ∀ key ∈ keys, Signed key message) (c : SyncCoordinator) (batches : Nat) :
    Delivers (fun outcome tr =>
      CollisionFree (MutableTrie.hashedBytes (finalState (leafTrie (leavesOf tr)))) →
        Synced B Signed c tr outcome) (c.run B batches) := by
  refine delivers_pickPivot.bind fun pivotHeight tr₀ hsent₀ => ?_
  refine (delivers_downloadHeaders c pivotHeight batches (accepted_start _)).bind ?_
  rintro st tr₁ ⟨headers, hsent₁, hacc⟩
  cases hroot : st.pivotStateRoot with
  | none => exact delivers_throw _
  | some root =>
    refine (delivers_fetchManifest B c pivotHeight root).bind ?_
    rintro manifest tr₂ ⟨hsent₂, hbound⟩
    refine (delivers_fetchState pivotHeight root manifest).bind ?_
    rintro allLeaves tr₃ ⟨hsent₃, hglobal⟩
    refine delivers_pure fun hfree => ?_
    obtain ⟨hheaders, hmanifests, hleaves⟩ :=
      hsent₀.append (hsent₁.append (hsent₂.append (hsent₃.append sent_nil)))
    simp only [nil_append, append_nil] at hheaders hmanifests hleaves hacc hfree ⊢
    obtain ⟨positions, keys, hnodup, hquorum, hkeys, hverified⟩ :=
      quorum_of_verifyManifestSignature hbound.signature
    rw [hbound.height, hbound.stateRoot, ← hbound.chunkRoot] at hverified
    refine ⟨?_, ⟨manifest, hmanifests, positions, keys, hnodup, hquorum, hkeys, hverified,
      hbls _ _ _ hverified⟩, ?_⟩
    · rw [hheaders]
      exact hacc.isPivotChain hroot
    · rw [hleaves] at hfree ⊢
      exact map_of_verifyGlobalStateRoot hfree hglobal

/-- Whatever the peer does, when a run succeeds the peer has sent a linked chain of headers up to
the pivot, a manifest that a quorum has signed, and the leaves of the state. -/
theorem fast_sync_sound (B : ThresholdBls) (Signed : Bytes → H256 → Prop)
    (hbls : ∀ sig keys message, B.verifyAggregate sig keys message = true →
      ∀ key ∈ keys, Signed key message)
    (c : SyncCoordinator) (batches : Nat) {σ : Type}
    (peer : (q : PeerRequest) → σ → PeerReply q × σ) (s : σ) (outcome : FastSyncOutcome)
    (hrun : (Interaction.run peer (c.run B batches).run s).1 = .ok outcome)
    (hfree : CollisionFree (MutableTrie.hashedBytes (finalState
      (leafTrie (leavesOf (transcript peer (c.run B batches).run s)))))) :
    Synced B Signed c (transcript peer (c.run B batches).run s) outcome :=
  (delivers_run hbls c batches).run hrun hfree

/-! ## An honest peer -/

def loggedBls (log : List (Bytes × H256)) : ThresholdBls where
  isPubkey := fun _ => true
  isSignature := fun _ => true
  verifyAggregate := fun _ keys message => keys.all fun key => log.contains (key, message)

def lowLeaf : Leaf := ⟨7, [1, 2, 3], by decide⟩

def highLeaf : Leaf := ⟨9, [4], by decide⟩

def rootOf (leaves : List Leaf) : H256 := (finalState (leafTrie leaves)).root

def firstHeader : SealedHeader where
  toBlockHeader := { (Block.first []).header with stateRoot := rootOf [lowLeaf] }
  parentHash := 0
  uncleHash := 0
  transactionsRoot := 0
  receiptsRoot := 0
  logsBloom := 0
  difficulty := 1
  extraData := []
  nonce := 0
  committeeSignature := []
  epoch := 0
  epochSeed := none

def secondHeader : SealedHeader :=
  { firstHeader with number := 2, stateRoot := rootOf [lowLeaf, highLeaf]
                     parentHash := firstHeader.hash }

def chunkRoots : List H256 := [rootOf [lowLeaf], rootOf [highLeaf]]

def sampleManifest : SnapshotMeta :=
  ⟨2, rootOf [lowLeaf, highLeaf], chunkRoots, merkleRoot chunkRoots, [], ⟨[7], 4⟩⟩

def honestPeer : (q : PeerRequest) → Unit → PeerReply q × Unit
  | .tip, s => (.ok (66, 0), s)
  | .getHeaders _ _, s => (.ok [firstHeader, secondHeader], s)
  | .getSnapshotMeta _, s => (.ok sampleManifest, s)
  | .getChunk _ chunk, s => (.ok [if chunk = 0 then lowLeaf else highLeaf], s)
  | .reportMisbehavior _, s => ((), s)

def fourMembers : List (Address × Bytes) := [(0xa1, [1]), (0xa2, [2]), (0xa3, [3]), (0xa4, [4])]

def threeOfFour : SyncCoordinator := ⟨256, fourMembers, 3, by decide⟩

def memberLog : List (Bytes × H256) :=
  [[1], [2], [3]].map fun key =>
    (key, manifestMessage 2 (rootOf [lowLeaf, highLeaf]) (merkleRoot chunkRoots) 2)

theorem honest_peer_synced : SyncCoordinator.new fourMembers 3 = some threeOfFour ∧
      ∃ outcome, (Interaction.run honestPeer (threeOfFour.run (loggedBls memberLog) 1).run ()).1 =
          .ok outcome ∧
        Synced (loggedBls memberLog) (fun key message => (key, message) ∈ memberLog) threeOfFour
          (transcript honestPeer (threeOfFour.run (loggedBls memberLog) 1).run ()) outcome := by
  refine ⟨rfl, exists_ok (by decide +kernel) fun outcome hrun => fast_sync_sound _ _ ?_ threeOfFour 1
    honestPeer () outcome hrun (collisionFree_of_nodup (by decide +kernel))⟩
  intro sig keys message hverified key hkey
  exact contains_iff_mem.mp (all_eq_true.mp hverified key hkey)

end Sync

end ZbxChain
