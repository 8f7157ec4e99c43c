import Mathlib.Data.List.AList
import ZbxChain.Types.Signing

/-!
# Bridge requests

`BridgeRequest` of `zbx-bridge/src/relayer.rs`, the receipt proof that is attached to it
(`proofs.rs`), and the tokens that may be bridged (`token.rs`).
-/

namespace ZbxChain

namespace Bridge

abbrev U128 := BitVec 128

/-- The variants of `BridgeError` that the modelled functions raise. -/
inductive BridgeError
  | amountTooSmall (amount : U128)
  | zeroAmount
  | exceedsMaxPerTx (max : U128)
  | dailyLimitExceeded (limit used requested : U128)
  | tokenNotWhitelisted (token : String)
  | tokenDisabled (symbol : String)
  | insufficientConfirmations (got required : Nat)
  | invalidSignature (msg : String)
  | duplicateRequest (id : String)
  | expired
  | notFound (id : String)
  | proofInvalid (msg : String)
  | replayedOperation (hash : String)
  | persistenceFailure (msg : String)
  | sourceChainMismatch (expected got : UInt64)
  | paused
  deriving DecidableEq, Repr

abbrev BridgeResult := Except BridgeError

inductive ChainId
  | ethereum
  | bsc
  | polygon
  deriving DecidableEq, Repr

/-- `target_chain as u64`. -/
def ChainId.toNat : ChainId → Nat
  | .ethereum => 1
  | .bsc => 56
  | .polygon => 137

inductive BridgeRequestType
  | deposit
  | withdrawal
  deriving DecidableEq, Repr

/-- `request_type as u8`. -/
def BridgeRequestType.toByte : BridgeRequestType → UInt8
  | .deposit => 0
  | .withdrawal => 1

def requestExpirySecs : UInt64 := 86400

/-! ## Receipt proofs -/

structure BridgeProof where
  receiptHash : H256
  blockHash : H256
  blockNumber : UInt64
  siblings : List H256
  receiptIndex : UInt32
  deriving DecidableEq, Repr

namespace BridgeProof

def combine (left right : H256) : H256 := keccak256 (left.toBytes ++ right.toBytes)

def fold : H256 → Nat → List H256 → H256
  | current, _, [] => current
  | current, index, sibling :: rest =>
    fold (if index % 2 = 0 then combine current sibling else combine sibling current) (index / 2) rest

def computedRoot (proof : BridgeProof) : H256 :=
  fold proof.receiptHash proof.receiptIndex.toNat proof.siblings

def verify (proof : BridgeProof) (receiptsRoot : H256) : BridgeResult Unit :=
  if proof.computedRoot = receiptsRoot then .ok ()
  else .error (.proofInvalid ("computed root " ++ hexEncode proof.computedRoot.toBytes ++
    " != expected " ++ hexEncode receiptsRoot.toBytes))

end BridgeProof

/-! ## Requests -/

def nativeZbxSentinel : Address := 0xeeeeeeeeeeeeeeeeeeeeeeeeeeeeeeeeeeeeeeee

structure BridgeRequest where
  id : H256
  requestType : BridgeRequestType
  token : Address
  tokenSymbol : String
  sender : Address
  recipient : Address
  /-- After the fee. -/
  amount : U128
  fee : U128
  targetChain : ChainId
  sourceChainId : UInt64
  blockNumber : UInt64
  proof : Option BridgeProof
  confirmations : List (Address × Signature)
  executed : Bool
  timestamp : UInt64
  deriving DecidableEq

namespace BridgeRequest

def idInput (token sender recipient : Address) (netAmount : U128) (targetChain : ChainId)
    (sourceChainId : UInt64) (requestType : BridgeRequestType) (blockNumber timestamp : UInt64) :
    Bytes :=
  token.toBytes ++ sender.toBytes ++ recipient.toBytes ++ beBytes 16 netAmount.toNat ++
    beBytes 8 blockNumber.toNat ++ beBytes 8 timestamp.toNat ++ beBytes 8 targetChain.toNat ++
    beBytes 8 sourceChainId.toNat ++ [requestType.toByte]

variable (req : BridgeRequest)

def setProof (proof : BridgeProof) : BridgeRequest :=
  { req with proof := some proof }

def addConfirmation (signer : Address) (sig : Signature) : BridgeRequest :=
  if req.confirmations.any (fun c => c.1 = signer) then req
  else { req with confirmations := req.confirmations ++ [(signer, sig)] }

def msgHash : H256 :=
  keccak256 (req.id.toBytes ++ req.token.toBytes ++ req.sender.toBytes ++ req.recipient.toBytes ++
    beBytes 16 req.amount.toNat)

def isExpired (currentTimestamp : UInt64) : Bool :=
  req.timestamp + requestExpirySecs < currentTimestamp

end BridgeRequest

/-! ## Tokens -/

structure BridgeToken where
  address : Address
  symbol : String
  maxPerTx : U128
  dailyLimit : U128
  enabled : Bool
  deriving DecidableEq

namespace BridgeToken

def nativeZbx : BridgeToken where
  address := nativeZbxSentinel
  symbol := "ZBX"
  maxPerTx := 1000000000000000000000000
  dailyLimit := 10000000000000000000000000
  enabled := true

def zusd (address : Address) : BridgeToken where
  address := address
  symbol := "ZUSD"
  maxPerTx := 5000000000000000000000000
  dailyLimit := 50000000000000000000000000
  enabled := true

end BridgeToken

def zusdGenesisAddr : Address := 0x231d0001

abbrev TokenWhitelist := AList fun _ : Address => BridgeToken

namespace TokenWhitelist

def insertToken (whitelist : TokenWhitelist) (token : BridgeToken) : TokenWhitelist :=
  whitelist.insert token.address token

def defaultMainnet : TokenWhitelist :=
  insertToken (insertToken ∅ .nativeZbx) (.zusd zusdGenesisAddr)

/-- `enable` and `disable`. -/
def setEnabled (whitelist : TokenWhitelist) (token : Address) (enabled : Bool) : TokenWhitelist :=
  match whitelist.lookup token with
  | none => whitelist
  | some t => whitelist.insert token { t with enabled }

def getEnabled (whitelist : TokenWhitelist) (token : Address) : BridgeResult BridgeToken :=
  match whitelist.lookup token with
  | none => .error (.tokenNotWhitelisted (hexEncode token.toBytes))
  | some t => if t.enabled then .ok t else .error (.tokenDisabled t.symbol)

end TokenWhitelist

abbrev DailyLimitTracker := AList fun _ : Address => UInt64 × U128

namespace DailyLimitTracker

def dayOf (timestamp : UInt64) : UInt64 := timestamp / 86400

def bridgedToday (tracker : DailyLimitTracker) (token : Address) (timestamp : UInt64) : U128 :=
  match tracker.lookup token with
  | some (day, total) => if day = dayOf timestamp then total else 0
  | none => 0

def check (tracker : DailyLimitTracker) (token : Address) (amount limit : U128)
    (timestamp : UInt64) : BridgeResult U128 :=
  let todayTotal := tracker.bridgedToday token timestamp
  if limit < todayTotal + amount then .error (.dailyLimitExceeded limit todayTotal amount)
  else .ok (limit - todayTotal - amount)

def record (tracker : DailyLimitTracker) (token : Address) (amount : U128) (timestamp : UInt64) :
    DailyLimitTracker :=
  tracker.insert token (dayOf timestamp, tracker.bridgedToday token timestamp + amount)

end DailyLimitTracker

end Bridge

/-!
## The multisig of the bridge

`MultisigAuth` of `zbx-bridge/src/multisig.rs`. `recover_signer` is a parameter; the text of its
error goes into the error of the caller.
-/

namespace Bridge

open List

/-- `recover_signer`: the address whose key made the signature over the hash, or the text of
the error. -/
abbrev Recovery := H256 → Signature → Except String Address

def multisigThreshold : Nat := 3

def multisigSize : Nat := 5

structure MultisigKey where
  address : Address
  name : String
  deriving DecidableEq

structure MultisigAuth where
  keys : List MultisigKey
  threshold : Nat
  spentOperations : List H256
  deriving DecidableEq

namespace MultisigAuth

/-- `none` is the panic of the assertion. -/
def new (keys : List MultisigKey) : Option MultisigAuth :=
  if keys.length ≤ multisigSize then some ⟨keys, multisigThreshold, []⟩ else none

variable (recover : Recovery) (auth : MultisigAuth) (msgHash : H256)

def loadSpentOperations (hashes : List H256) : MultisigAuth :=
  { auth with spentOperations := hashes ++ auth.spentOperations }

def isRegistered (addr : Address) : Bool :=
  auth.keys.any fun k => k.address = addr

def isSpent : Bool := auth.spentOperations.contains msgHash

def markSpent : MultisigAuth :=
  { auth with spentOperations := msgHash :: auth.spentOperations }

def verifySingle (signer : Address) (sig : Signature) : BridgeResult Unit :=
  if auth.isRegistered signer then
    match recover msgHash sig with
    | .ok other =>
      if other = signer then .ok ()
      else .error (.invalidSignature ("sig for " ++ hexEncode signer.toBytes ++ " recovers to " ++
        hexEncode other.toBytes ++ " — key mismatch"))
    | .error e =>
      .error (.invalidSignature ("malformed sig from " ++ hexEncode signer.toBytes ++ ": " ++ e))
  else .error (.invalidSignature ("unknown relayer " ++ hexEncode signer.toBytes))

def confirmOne
    (confirmed : List Address) (entry : Address × Signature) : BridgeResult (List Address) :=
  if auth.isRegistered entry.1 then
    if confirmed.contains entry.1 then
      .error (.invalidSignature ("duplicate signature from " ++ hexEncode entry.1.toBytes))
    else
      match recover msgHash entry.2 with
      | .ok other =>
        if other = entry.1 then .ok (entry.1 :: confirmed)
        else .error (.invalidSignature ("sig from " ++ hexEncode entry.1.toBytes ++
          " recovers to " ++ hexEncode other.toBytes))
      | .error e =>
        .error (.invalidSignature ("malformed signature from " ++ hexEncode entry.1.toBytes ++
          ": " ++ e))
  else .error (.invalidSignature ("unknown relayer " ++ hexEncode entry.1.toBytes))

def confirmedBy (recover : Recovery) (auth : MultisigAuth) (msgHash : H256) :
    List Address → List (Address × Signature) → BridgeResult (List Address)
  | confirmed, [] => .ok confirmed
  | confirmed, entry :: rest => do
    let confirmed ← confirmOne recover auth msgHash confirmed entry
    confirmedBy recover auth msgHash confirmed rest

def verifyThreshold (sigs : List (Address × Signature)) : BridgeResult Unit := do
  let confirmed ← confirmedBy recover auth msgHash [] sigs
  if auth.threshold ≤ confirmed.length then return ()
  throw (.insufficientConfirmations confirmed.length auth.threshold)

/-! ## Accepted batches -/

variable {recover : Recovery} {auth : MultisigAuth} {msgHash : H256}

structure Confirms (recover : Recovery) (auth : MultisigAuth) (msgHash : H256)
    (sigs : List (Address × Signature)) (addr : Address) : Prop where
  registered : ∃ k ∈ auth.keys, k.address = addr
  signature : ∃ sig, (addr, sig) ∈ sigs ∧ recover msgHash sig = .ok addr

theorem isRegistered_iff {addr : Address} :
    auth.isRegistered addr = true ↔ ∃ k ∈ auth.keys, k.address = addr := by
  simp [isRegistered]

theorem confirmOne_ok {confirmed confirmed' : List Address} {entry : Address × Signature}
    (h : confirmOne recover auth msgHash confirmed entry = .ok confirmed') :
    confirmed' = entry.1 :: confirmed ∧ entry.1 ∉ confirmed ∧ auth.isRegistered entry.1 = true ∧
      recover msgHash entry.2 = .ok entry.1 := by
  unfold confirmOne at h
  split at h
  · next hreg =>
    split at h
    · cases h
    · next hnew =>
      split at h
      · next other hrec =>
        split at h
        · next heq =>
          cases h
          exact ⟨rfl, by simpa using hnew, hreg, by rw [hrec, heq]⟩
        · cases h
      · cases h
  · cases h

theorem confirmedBy_ok {confirmed result : List Address} {sigs : List (Address × Signature)}
    (h : confirmedBy recover auth msgHash confirmed sigs = .ok result) :
    ∃ signers, result = signers ++ confirmed ∧ (confirmed.Nodup → result.Nodup) ∧
      ∀ addr ∈ signers, Confirms recover auth msgHash sigs addr := by
  induction sigs generalizing confirmed with
  | nil =>
    cases h
    exact ⟨[], rfl, id, by simp⟩
  | cons entry rest ih =>
    obtain ⟨confirmed', hone, hrest⟩ := bind_eq_ok.mp h
    obtain ⟨rfl, hnew, hreg, hrec⟩ := confirmOne_ok hone
    obtain ⟨signers, rfl, hnodup, hconfirms⟩ := ih hrest
    refine ⟨signers ++ [entry.1], by simp, ?_, ?_⟩
    · intro hconfirmed
      exact hnodup (nodup_cons.mpr ⟨hnew, hconfirmed⟩)
    intro addr haddr
    rcases mem_append.mp haddr with hmem | hmem
    · obtain ⟨hregistered, sig, hsig, hvalid⟩ := hconfirms addr hmem
      exact ⟨hregistered, sig, mem_cons_of_mem _ hsig, hvalid⟩
    · obtain rfl := mem_singleton.mp hmem
      exact ⟨isRegistered_iff.mp hreg, entry.2, mem_cons_self, hrec⟩

theorem verifyThreshold_ok {sigs : List (Address × Signature)}
    (h : verifyThreshold recover auth msgHash sigs = .ok ()) :
    ∃ signers : List Address, signers.Nodup ∧ auth.threshold ≤ signers.length ∧
      ∀ addr ∈ signers, Confirms recover auth msgHash sigs addr := by
  obtain ⟨confirmed, hconfirmed, hcount⟩ := bind_eq_ok.mp h
  obtain ⟨signers, rfl, hnodup, hconfirms⟩ := confirmedBy_ok hconfirmed
  rw [append_nil] at hnodup hcount
  refine ⟨signers, hnodup nodup_nil, ?_, hconfirms⟩
  by_contra hfew
  rw [if_neg hfew] at hcount
  cases hcount

end MultisigAuth

end Bridge

end ZbxChain
