import ZbxChain.Bridge.Request
import ZbxChain.Lib.Interaction

/-!
# The bridge relayer

`BridgeRelayer` of `zbx-bridge/src/relayer.rs`. All of it is memory; what survives a crash is the
store of spent operations.
-/

namespace ZbxChain.Bridge

inductive BridgeAction
  | mintOnTarget (targetChain : ChainId) (token : Address) (tokenSymbol : String)
      (recipient : Address) (amount : U128) (requestId : H256)
  | unlockOnZbx (token : Address) (tokenSymbol : String) (recipient : Address) (amount : U128)
      (requestId : H256)
  deriving DecidableEq

def BridgeRequest.action (req : BridgeRequest) (id : H256) : BridgeAction :=
  match req.requestType with
  | .deposit =>
    .mintOnTarget req.targetChain req.token req.tokenSymbol req.recipient req.amount id
  | .withdrawal => .unlockOnZbx req.token req.tokenSymbol req.recipient req.amount id

structure BridgeRelayer where
  auth : MultisigAuth
  whitelist : TokenWhitelist
  dailyTracker : DailyLimitTracker
  pending : AList fun _ : H256 => BridgeRequest
  completed : AList fun _ : H256 => BridgeRequest
  paused : Bool
  ownChainId : UInt64
  /-- Whether a store of spent operations is attached. -/
  hasStore : Bool

namespace BridgeRelayer

/-- `none` when there are too many keys. -/
def new (keys : List MultisigKey) (ownChainId : UInt64) : Option BridgeRelayer :=
  (MultisigAuth.new keys).map fun auth =>
    ⟨auth, .defaultMainnet, ∅, ∅, ∅, false, ownChainId, false⟩

variable (r : BridgeRelayer) (req : BridgeRequest)

/-- `loaded` is what `load_all` of the store returns. -/
def attachStorage (loaded : Except String (List H256)) : BridgeResult BridgeRelayer :=
  match loaded with
  | .error e => .error (.persistenceFailure ("load_all on startup: " ++ e))
  | .ok hashes => .ok { r with auth := r.auth.loadSpentOperations hashes, hasStore := true }

def loadSpentOps (hashes : List H256) : BridgeRelayer :=
  { r with auth := r.auth.loadSpentOperations hashes }

def setPaused (paused : Bool) : BridgeRelayer := { r with paused }

def registerToken (token : BridgeToken) : BridgeRelayer :=
  { r with whitelist := TokenWhitelist.insertToken r.whitelist token }

/-- `whitelist.enable` and `whitelist.disable`. -/
def setTokenEnabled (token : Address) (enabled : Bool) : BridgeRelayer :=
  { r with whitelist := TokenWhitelist.setEnabled r.whitelist token enabled }

/-- `set_proof` on a pending request. -/
def setProof (id : H256) (proof : BridgeProof) : BridgeRelayer :=
  match r.pending.lookup id with
  | none => r
  | some req => { r with pending := r.pending.insert id (req.setProof proof) }

def checkSubmit (currentTimestamp : UInt64) : BridgeResult Unit := do
  if r.paused then throw .paused
  if req.sourceChainId ≠ r.ownChainId then
    throw (.sourceChainMismatch r.ownChainId req.sourceChainId)
  let token ← TokenWhitelist.getEnabled r.whitelist req.token
  if token.maxPerTx < req.amount then throw (.exceedsMaxPerTx token.maxPerTx)
  let _ ← DailyLimitTracker.check r.dailyTracker req.token req.amount token.dailyLimit
    currentTimestamp
  if (r.pending.lookup req.id).isSome ∨ (r.completed.lookup req.id).isSome then
    throw (.duplicateRequest (hexEncode req.id.toBytes))

def submit (currentTimestamp : UInt64) : BridgeResult (H256 × BridgeRelayer) := do
  r.checkSubmit req currentTimestamp
  return (req.id, { r with
    dailyTracker := DailyLimitTracker.record r.dailyTracker req.token req.amount currentTimestamp
    pending := r.pending.insert req.id req })

def thresholdReached (result : BridgeResult Unit) : BridgeResult Bool :=
  match result with
  | .ok _ => .ok true
  | .error (.insufficientConfirmations _ _) => .ok false
  | .error e => .error e

def confirm (recover : Recovery) (r : BridgeRelayer) (id : H256) (signer : Address)
    (sig : Signature) (currentTimestamp : UInt64) : BridgeResult Bool × BridgeRelayer :=
  match r.pending.lookup id with
  | none => (.error (.notFound (hexEncode id.toBytes)), r)
  | some req =>
    if req.isExpired currentTimestamp then (.error .expired, r)
    else if req.sourceChainId ≠ r.ownChainId then
      (.error (.sourceChainMismatch r.ownChainId req.sourceChainId), r)
    else
      match r.auth.verifySingle recover req.msgHash signer sig with
      | .error e => (.error e, r)
      | .ok _ =>
        let req := req.addConfirmation signer sig
        (thresholdReached (r.auth.verifyThreshold recover req.msgHash req.confirmations),
          { r with pending := r.pending.insert id req })

def expireStale (currentTimestamp : UInt64) : Nat × BridgeRelayer :=
  let expired := r.pending.entries.filter fun e => e.2.isExpired currentTimestamp
  (expired.length,
    { r with pending := expired.foldl (fun pending e => pending.erase e.1) r.pending })

/-! ## Execution -/

/-- The accesses of `execute`. -/
inductive Access
  | self
  | persistOne (hash : H256)
  | markSpent (hash : H256)
  | complete (id : H256)

def Reply : Access → Type
  | .self => BridgeRelayer
  | .persistOne _ => Except String Unit
  | .markSpent _ => Unit
  | .complete _ => Unit

abbrev Execution := Interaction Access Reply

def authorize (recover : Recovery) (r : BridgeRelayer) (id : H256) (currentTimestamp : UInt64) :
    BridgeResult BridgeRequest :=
  match r.pending.lookup id with
  | none => .error (.notFound (hexEncode id.toBytes))
  | some req => do
    if req.isExpired currentTimestamp then throw .expired
    if req.sourceChainId ≠ r.ownChainId then
      throw (.sourceChainMismatch r.ownChainId req.sourceChainId)
    if r.auth.isSpent req.msgHash then
      throw (.replayedOperation (hexEncode req.msgHash.toBytes))
    r.auth.verifyThreshold recover req.msgHash req.confirmations
    return req

def checkProof (receiptsRoot : H256) : BridgeResult Unit :=
  match req.proof with
  | none => .error (.proofInvalid "no proof attached")
  | some proof => proof.verify receiptsRoot

/-- From the mark in memory on. The operation is spent also when the proof turns out wrong. -/
def settle (id receiptsRoot : H256) : Execution (BridgeResult BridgeAction) :=
  .ask (.markSpent req.msgHash) fun _ =>
    match checkProof req receiptsRoot with
    | .error e => .ret (.error e)
    | .ok _ => .ask (.complete id) fun _ => .ret (.ok (req.action id))

def persistAndSettle (id receiptsRoot : H256) : Execution (BridgeResult BridgeAction) :=
  if r.hasStore then
    .ask (.persistOne req.msgHash) fun persisted =>
      match persisted with
      | .error e => .ret (.error (.persistenceFailure e))
      | .ok _ => settle req id receiptsRoot
  else settle req id receiptsRoot

def execute (recover : Recovery) (id receiptsRoot : H256) (currentTimestamp : UInt64) :
    Execution (BridgeResult BridgeAction) :=
  .ask .self fun r =>
    match authorize recover r id currentTimestamp with
    | .error e => .ret (.error e)
    | .ok req => persistAndSettle r req id receiptsRoot

/-- `pending.remove(id)` and `completed.insert(id, done)`. -/
def complete (id : H256) : BridgeRelayer :=
  match r.pending.lookup id with
  | none => r
  | some req => { r with
      pending := r.pending.erase id
      completed := r.completed.insert id { req with executed := true } }

/-! ## What the checks say -/

variable {recover : Recovery} {r : BridgeRelayer} {id receiptsRoot : H256} {timestamp : UInt64}

structure Authorized (recover : Recovery) (r : BridgeRelayer) (id : H256) (req : BridgeRequest) :
    Prop where
  pending : r.pending.lookup id = some req
  fresh : req.msgHash ∉ r.auth.spentOperations
  quorum : r.auth.verifyThreshold recover req.msgHash req.confirmations = .ok ()

theorem authorize_ok {req : BridgeRequest} (h : authorize recover r id timestamp = .ok req) :
    Authorized recover r id req := by
  unfold authorize at h
  split at h
  · cases h
  · next req' hreq =>
    simp only [throw_eq_error, error_bind, ite_error_eq_ok, bind_eq_ok] at h
    obtain ⟨-, -, hspent, ⟨⟩, hquorum, hreturn⟩ := h
    cases hreturn
    exact ⟨hreq, by simpa [MultisigAuth.isSpent] using hspent, hquorum⟩

theorem submit_ok {req : BridgeRequest} {result : H256 × BridgeRelayer}
    (h : r.submit req timestamp = .ok result) :
    (∃ t, r.whitelist.lookup req.token = some t ∧ req.amount ≤ t.maxPerTx ∧
        r.dailyTracker.bridgedToday req.token timestamp + req.amount ≤ t.dailyLimit) ∧
      req.sourceChainId = r.ownChainId ∧ result.2 = { r with
        dailyTracker := r.dailyTracker.record req.token req.amount timestamp
        pending := r.pending.insert req.id req } := by
  obtain ⟨⟨⟩, hcheck, hreturn⟩ := bind_eq_ok.mp h
  cases hreturn
  simp only [checkSubmit, TokenWhitelist.getEnabled, DailyLimitTracker.check, throw_eq_error,
    error_bind, ite_error_eq_ok, bind_eq_ok] at hcheck
  obtain ⟨-, hchain, t, htoken, hmax, -, ⟨hlimit, -⟩, -⟩ := hcheck
  refine ⟨⟨t, ?_, BitVec.not_lt.mp hmax, BitVec.not_lt.mp hlimit⟩, not_not.mp hchain, rfl⟩
  split at htoken
  · cases htoken
  · next t' ht =>
    split at htoken
    · cases htoken
      exact ht
    · cases htoken

end BridgeRelayer

end ZbxChain.Bridge
