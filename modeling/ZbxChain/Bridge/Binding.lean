import ZbxChain.Bridge.AtMostOnce
import ZbxChain.Lib.FiniteMap

/-!
# What the signatures of the bridge bind

The signers of a request sign its `msg_hash`, over the id, the token, both parties and the amount.
The direction and the target chain are in the hash only by way of the id, which is the hash of the
whole content when `BridgeRequest::new` has made it.
-/

namespace ZbxChain.Bridge

open Interaction BridgeRelayer BridgeRequest List Service

/-! ## Actions and requests -/

/-- The action without the symbol, which is for logging only: where it mints (nowhere, for an
unlock), the token, the recipient, the amount and the id. -/
def BridgeAction.terms : BridgeAction → Option ChainId × Address × Address × U128 × H256
  | .mintOnTarget targetChain token _ recipient amount requestId =>
    (some targetChain, token, recipient, amount, requestId)
  | .unlockOnZbx token _ recipient amount requestId => (none, token, recipient, amount, requestId)

namespace BridgeRequest

variable (req : BridgeRequest)

def destination : Option ChainId :=
  match req.requestType with
  | .deposit => some req.targetChain
  | .withdrawal => none

/-- What `msg_hash` is the hash of. -/
def signedBytes : Bytes :=
  req.id.toBytes ++ req.token.toBytes ++ req.sender.toBytes ++ req.recipient.toBytes ++
    beBytes 16 req.amount.toNat

/-- What the id of such a request is the hash of, when `BridgeRequest::new` makes it. -/
def contentBytes : Bytes :=
  idInput req.token req.sender req.recipient req.amount req.targetChain req.sourceChainId
    req.requestType req.blockNumber req.timestamp

def Sealed : Prop := req.id = keccak256 req.contentBytes

def core : BridgeRequest := { req with proof := none, confirmations := [] }

variable {req req' : BridgeRequest}

theorem terms_action (req : BridgeRequest) (id : H256) :
    (req.action id).terms = (req.destination, req.token, req.recipient, req.amount, id) := by
  unfold action destination
  cases req.requestType with
  | deposit => rfl
  | withdrawal => rfl

theorem toNat_injective_chainId : Function.Injective ChainId.toNat := by
  intro c d h
  cases c <;> cases d <;> first | rfl | cases h

theorem toByte_injective_requestType : Function.Injective BridgeRequestType.toByte := by
  intro t u h
  cases t <;> cases u <;> first | rfl | cases h

theorem signedBytes_inj (h : req.signedBytes = req'.signedBytes) :
    req.id = req'.id ∧ req.token = req'.token ∧ req.recipient = req'.recipient ∧
      req.amount = req'.amount := by
  obtain ⟨h, hamount⟩ := append_inj h (by simp)
  obtain ⟨h, hrecipient⟩ := append_inj h (by simp)
  obtain ⟨h, -⟩ := append_inj h (by simp)
  obtain ⟨hid, htoken⟩ := append_inj h (by simp)
  refine ⟨H256.toBytes_injective hid, Address.toBytes_injective htoken,
    Address.toBytes_injective hrecipient, BitVec.eq_of_toNat_eq ?_⟩
  exact beBytes_inj req.amount.isLt req'.amount.isLt hamount

theorem destination_of_contentBytes (h : req.contentBytes = req'.contentBytes) :
    req.destination = req'.destination := by
  obtain ⟨h, htype⟩ := append_inj h (by simp)
  obtain ⟨h, -⟩ := append_inj h (by simp)
  obtain ⟨-, hchain⟩ := append_inj h (by simp)
  have hbound : ∀ c : ChainId, c.toNat < 256 ^ 8 := by
    intro c
    cases c <;> decide
  have htarget : req.targetChain = req'.targetChain :=
    toNat_injective_chainId (beBytes_inj (hbound _) (hbound _) hchain)
  have hkind : req.requestType = req'.requestType :=
    toByte_injective_requestType (singleton_inj.mp htype)
  unfold destination
  rw [htarget, hkind]

def hashedFor (req req' : BridgeRequest) : Set Bytes :=
  {b | b ∈ [req.signedBytes, req'.signedBytes, req.contentBytes, req'.contentBytes]}

variable {req req' : BridgeRequest}

section

variable (hfree : CollisionFree (hashedFor req req')) (h : req.msgHash = req'.msgHash)

include hfree h

theorem signed_of_msgHash :
    req.id = req'.id ∧ req.token = req'.token ∧ req.recipient = req'.recipient ∧
      req.amount = req'.amount :=
  signedBytes_inj (hfree.eq (by simp [hashedFor]) (by simp [hashedFor]) h)

theorem destination_of_sealed (hsealed : req.Sealed) (hsealed' : req'.Sealed) :
    req.destination = req'.destination := by
  have hid : keccak256 req.contentBytes = keccak256 req'.contentBytes := by
    rw [← hsealed, ← hsealed']
    exact (signed_of_msgHash hfree h).1
  exact destination_of_contentBytes (hfree.eq (by simp [hashedFor]) (by simp [hashedFor]) hid)

end

theorem core_addConfirmation (req : BridgeRequest) (signer : Address) (sig : Signature) :
    (req.addConfirmation signer sig).core = req.core := by
  unfold addConfirmation
  split
  · rfl
  · rfl

end BridgeRequest

/-! ## The requests that are accepted -/

namespace Service

/-- The request of a call that `submit` answers with `Ok`. -/
def accepts (s : Service) : Call → List BridgeRequest
  | .submit req timestamp =>
    if (s.relayer.map fun r => (r.submit req timestamp).isOk) = some true then [req] else []
  | _ => []

def accepted (recover : Recovery) : Service → List Call → List BridgeRequest
  | _, [] => []
  | s, call :: calls => s.accepts call ++ accepted recover (s.step recover call).1 calls

def Fresh (s : Service) : Prop := ∀ r, s.relayer = some r → r.pending = ∅

end Service

/-- A pending request stands under its own id and is, but for its confirmations and proof, one
that was accepted. -/
def Filed (requests : List BridgeRequest) (r : BridgeRelayer) : Prop :=
  ∀ id req, r.pending.lookup id = some req → req.id = id ∧ ∃ sub ∈ requests, req.core = sub.core

def FiledIn (requests : List BridgeRequest) (s : Service) : Prop :=
  ∀ r, s.relayer = some r → Filed requests r

structure Faithful (requests : List BridgeRequest) (e : Executed) : Prop where
  action : e.action = e.request.action e.request.id
  source : ∃ sub ∈ requests, e.request.core = sub.core

variable {recover : Recovery} {outcome : WriteOutcome} {store : List H256} {r : BridgeRelayer}
  {id receiptsRoot : H256} {timestamp : UInt64} {action : BridgeAction}
  {requests more : List BridgeRequest} {s : Service}

theorem Filed.of_pending_eq {r' : BridgeRelayer} (h : Filed requests r)
    (heq : r'.pending = r.pending) : Filed requests r' := by
  unfold Filed
  rw [heq]
  exact h

theorem Filed.mono (h : Filed requests r) (hsub : ∀ req ∈ requests, req ∈ more) : Filed more r := by
  intro id req hreq
  obtain ⟨hid, sub, hmem, hcore⟩ := h id req hreq
  exact ⟨hid, sub, hsub sub hmem, hcore⟩

variable {req : BridgeRequest} {e : Executed} {calls : List Call}

section

variable (h : Filed requests r)

include h

theorem Filed.insert {sub : BridgeRequest} (hid : req.id = id)
    (hsub : sub ∈ requests) (hcore : req.core = sub.core) :
    Filed requests { r with pending := r.pending.insert id req } := by
  intro other found hfound
  rcases FiniteMap.lookup_insert_cases hfound with ⟨rfl, rfl⟩ | hold
  · exact ⟨hid, sub, hsub, hcore⟩
  · exact h other found hold

theorem Filed.erase (id : H256) : Filed requests { r with pending := r.pending.erase id } := by
  exact fun other found hfound => h other found (FiniteMap.lookup_of_erase hfound)

theorem Filed.confirm (id : H256) (signer : Address) (sig : Signature)
    (timestamp : UInt64) : Filed requests (r.confirm recover id signer sig timestamp).2 := by
  rcases confirm_cases recover r id signer sig timestamp with hsame | ⟨req, hreq, -, hnew⟩
  · rwa [hsame]
  obtain ⟨hid, sub, hsub, hcore⟩ := h id req hreq
  have hkept := req.core_addConfirmation signer sig
  rw [hnew]
  exact h.insert ((congrArg BridgeRequest.id hkept).trans hid) hsub (hkept.trans hcore)

theorem Filed.setProof (id : H256) (proof : BridgeProof) :
    Filed requests (r.setProof id proof) := by
  unfold BridgeRelayer.setProof
  cases hreq : r.pending.lookup id with
  | none => exact h
  | some req =>
    obtain ⟨hid, sub, hsub, hcore⟩ := h id req hreq
    have hkept : (req.setProof proof).core = sub.core := hcore
    exact h.insert hid hsub hkept

theorem Filed.expireStale (timestamp : UInt64) : Filed requests (r.expireStale timestamp).2 := by
  unfold BridgeRelayer.expireStale
  generalize r.pending.entries.filter (fun e => e.2.isExpired timestamp) = expired
  induction expired generalizing r with
  | nil => exact h
  | cons e expired ih => exact ih (h.erase e.1)

theorem Filed.complete (id : H256) : Filed requests (r.complete id) := by
  unfold BridgeRelayer.complete
  cases r.pending.lookup id with
  | none => exact h
  | some req => exact (h.erase id).of_pending_eq rfl

end

theorem Filed.access {q : Access} {p : List H256 × BridgeRelayer} (h : Filed requests p.2) :
    Filed requests (access outcome q p).2.2 := by
  obtain ⟨store, r⟩ := p
  cases q with
  | self => exact h
  | persistOne hash => exact h
  | markSpent hash => exact h.of_pending_eq rfl
  | complete id => exact Filed.complete h id

theorem FiledIn.update (h : FiledIn requests s) {f : BridgeRelayer → BridgeRelayer}
    (hf : ∀ r, Filed requests r → Filed requests (f r)) : FiledIn requests (s.update f) := by
  intro r hr
  obtain ⟨r₀, hr₀, rfl⟩ := Option.map_eq_some_iff.mp hr
  exact hf r₀ (h r₀ hr₀)

theorem FiledIn.start (keys : List MultisigKey) (ownChainId : UInt64) (loadError : Option String) :
    FiledIn requests { s with relayer := s.started keys ownChainId loadError } := by
  intro r hr
  obtain ⟨r₀, hnew, hattach⟩ := Option.bind_eq_some_iff.mp hr
  obtain ⟨auth, -, rfl⟩ := Option.map_eq_some_iff.mp hnew
  cases loadError with
  | some e => cases hattach
  | none =>
    cases hattach
    intro id req hreq
    cases hreq

/-! ## Executions -/

section

variable (h : FiledIn requests s)

include h

theorem FiledIn.executed (hr : s.relayer = some r) (n : Nat)
    (he : e ∈ ((runFor (Bridge.access outcome) n (execute recover id receiptsRoot timestamp)
      (s.store, r)).1.map (executedBy r id)).getD []) : Faithful requests e := by
  cases hresult : (runFor (Bridge.access outcome) n (execute recover id receiptsRoot timestamp)
      (s.store, r)).1 with
  | none =>
    rw [hresult] at he
    cases he
  | some result =>
    rw [hresult] at he
    cases result with
    | error err =>
      cases he
    | ok action =>
      obtain ⟨req, hauth, -, haction, -⟩ := run_execute_ok (run_of_runFor hresult)
      unfold executedBy at he
      rw [hauth.pending] at he
      obtain rfl := mem_singleton.mp he
      obtain ⟨hid, hsource⟩ := h r hr id req hauth.pending
      refine ⟨?_, hsource⟩
      rw [hid]
      exact haction

theorem FiledIn.afterExecute (hr : s.relayer = some r) (n : Nat) :
    FiledIn requests (.afterExecute (runFor (Bridge.access outcome) n
      (execute recover id receiptsRoot timestamp) (s.store, r))) := by
  have hkept : Filed requests (runFor (Bridge.access outcome) n
      (execute recover id receiptsRoot timestamp) (s.store, r)).2.2 :=
    runFor_invariant (P := fun p : List H256 × BridgeRelayer => Filed requests p.2) n
      (fun q p hp => Filed.access hp) (h r hr)
  intro r' hr'
  obtain rfl := Service.relayer_afterExecute hr'
  exact hkept

theorem FiledIn.submit (req : BridgeRequest) (timestamp : UInt64) :
    FiledIn (requests ++ s.accepts (.submit req timestamp))
      (s.update fun r => ((r.submit req timestamp).toOption.map Prod.snd).getD r) := by
  intro r' hr'
  obtain ⟨r, hr, rfl⟩ := Option.map_eq_some_iff.mp hr'
  have hold : Filed (requests ++ s.accepts (.submit req timestamp)) r :=
    (h r hr).mono fun _ hmem => mem_append_left _ hmem
  cases hsubmit : r.submit req timestamp with
  | error e => exact hold
  | ok result =>
    have hreq : req ∈ s.accepts (.submit req timestamp) := by
      unfold accepts
      dsimp only
      rw [hr, Option.map_some, hsubmit]
      exact mem_singleton_self req
    obtain ⟨⟨⟩, -, hreturn⟩ := bind_eq_ok.mp hsubmit
    cases hreturn
    exact (hold.insert rfl (mem_append_right _ hreq) rfl).of_pending_eq rfl

theorem FiledIn.append_nil : FiledIn (requests ++ []) s := by
  rw [List.append_nil]
  exact h

theorem FiledIn.step (recover : Recovery) (call : Call) :
    FiledIn (requests ++ s.accepts call) (s.step recover call).1 ∧
      ∀ e ∈ (s.step recover call).2, Faithful requests e := by
  have hnone : ∀ e ∈ ([] : List Executed), Faithful requests e := nofun
  cases call with
  | submit req timestamp => exact ⟨h.submit req timestamp, hnone⟩
  | confirm id signer sig timestamp =>
    exact ⟨(h.update fun r hr => hr.confirm id signer sig timestamp).append_nil, hnone⟩
  | setProof id proof => exact ⟨(h.update fun r hr => hr.setProof id proof).append_nil, hnone⟩
  | setPaused paused =>
    exact ⟨(h.update (f := (·.setPaused paused)) fun r hr => hr.of_pending_eq rfl).append_nil, hnone⟩
  | registerToken token =>
    exact ⟨(h.update (f := (·.registerToken token)) fun r hr => hr.of_pending_eq rfl).append_nil,
      hnone⟩
  | setTokenEnabled token enabled =>
    exact ⟨(h.update (f := (·.setTokenEnabled token enabled)) fun r hr =>
      hr.of_pending_eq rfl).append_nil, hnone⟩
  | loadSpentOps hashes =>
    exact ⟨(h.update (f := (·.loadSpentOps hashes)) fun r hr => hr.of_pending_eq rfl).append_nil,
      hnone⟩
  | expireStale timestamp =>
    exact ⟨(h.update fun r hr => hr.expireStale timestamp).append_nil, hnone⟩
  | execute id receiptsRoot timestamp outcome steps =>
    unfold Service.step
    cases hr : s.relayer with
    | none => exact ⟨h.append_nil, hnone⟩
    | some r => exact ⟨(h.afterExecute hr steps).append_nil, fun e he => h.executed hr steps he⟩
  | crash => exact ⟨(fun r hr => nomatch hr), hnone⟩
  | start keys ownChainId loadError =>
    exact ⟨(FiledIn.start keys ownChainId loadError).append_nil, hnone⟩

end

theorem Faithful.mono (h : Faithful requests e) (hsub : ∀ req ∈ requests, req ∈ more) :
    Faithful more e := by
  obtain ⟨sub, hmem, hcore⟩ := h.source
  exact ⟨h.action, sub, hsub sub hmem, hcore⟩

theorem FiledIn.history (h : FiledIn requests s) (recover : Recovery) (calls : List Call) :
    ∀ e ∈ (s.history recover calls).2, Faithful (requests ++ s.accepted recover calls) e := by
  induction calls generalizing s requests with
  | nil =>
    intro e he
    cases he
  | cons call calls ih =>
    intro e he
    obtain ⟨hnext, hnow⟩ := h.step recover call
    rcases mem_append.mp he with hfirst | hlater
    · exact (hnow e hfirst).mono fun _ hmem => mem_append_left _ hmem
    have hfaithful := ih hnext e hlater
    rw [append_assoc] at hfaithful
    exact hfaithful

/-- In a run of a service, `submit` accepts the request and `execute` returns the action for it. -/
structure Performs (recover : Recovery) (s : Service) (calls : List Call) (req : BridgeRequest)
    (action : BridgeAction) : Prop where
  accepted : req ∈ s.accepted recover calls
  executed : ∃ e ∈ (s.history recover calls).2, e.request.core = req.core ∧ e.action = action

theorem faithful_of_fresh (h : s.Fresh) (he : e ∈ (s.history recover calls).2) :
    Faithful (s.accepted recover calls) e := by
  have hstart : FiledIn [] s := by
    intro r hr id req hreq
    rw [h r hr] at hreq
    cases hreq
  exact hstart.history recover calls e he

theorem Performs.terms (h : Performs recover s calls req action) (hfresh : s.Fresh) :
    action.terms = (req.destination, req.token, req.recipient, req.amount, req.id) := by
  obtain ⟨e, he, hcore, rfl⟩ := h.executed
  rw [(faithful_of_fresh hfresh he).action, terms_action]
  -- None of these fields is a confirmation or the proof.
  have hsame := congrArg (fun req : BridgeRequest =>
    (req.destination, req.token, req.recipient, req.amount, req.id)) hcore
  exact hsame

/-- **What a signature binds.** Of two accepted requests with one `msg_hash`, on one relayer or on
two, the actions agree in token, recipient, amount and id; they agree altogether exactly when the
requests have one direction and, as deposits, one target chain. That is so when both ids are the
hashes of the contents. -/
theorem signature_binds_iff {s₁ s₂ : Service} (hfresh₁ : s₁.Fresh) (hfresh₂ : s₂.Fresh)
    {calls₁ calls₂ : List Call} {req₁ req₂ : BridgeRequest} {action₁ action₂ : BridgeAction}
    (hdone₁ : Performs recover s₁ calls₁ req₁ action₁)
    (hdone₂ : Performs recover s₂ calls₂ req₂ action₂) (hfree : CollisionFree (hashedFor req₁ req₂))
    (hhash : req₁.msgHash = req₂.msgHash) :
    (action₁.terms = action₂.terms ↔ req₁.destination = req₂.destination) ∧
      (req₁.Sealed → req₂.Sealed → action₁.terms = action₂.terms) := by
  obtain ⟨hid, htoken, hrecipient, hamount⟩ := signed_of_msgHash hfree hhash
  have hiff : action₁.terms = action₂.terms ↔ req₁.destination = req₂.destination := by
    rw [hdone₁.terms hfresh₁, hdone₂.terms hfresh₂, hid, htoken, hrecipient, hamount]
    exact ⟨fun h => congrArg Prod.fst h, fun h => congrArg (·, _) h⟩
  refine ⟨hiff, fun hsealed₁ hsealed₂ => hiff.mpr ?_⟩
  exact destination_of_sealed hfree hhash hsealed₁ hsealed₂

/-! ## Two relayers -/

/-- A relayer of chain 8989 starts, takes the request, collects confirmations and executes it. -/
def relayed (req : BridgeRequest) : List Call :=
  .start sampleKeys 8989 none :: .submit req 1000 ::
    sampleKeys.map (fun k => .confirm req.id k.address (sampleSig k.address) 1000) ++
    [.execute req.id 0xfeed 1000 .durable 4]

def unsealed (requestType : BridgeRequestType) (targetChain : ChainId) : BridgeRequest :=
  { sampleRequest 1 0xb1 with requestType, targetChain }

def sealedDeposit (tokenSymbol : String) : BridgeRequest :=
  { unsealed .deposit .bsc with
    id := keccak256 (unsealed .deposit .bsc).contentBytes
    tokenSymbol }

def performedBy (calls : List Call) : List BridgeAction :=
  (history namedSigner ⟨[], none⟩ calls).2.map Executed.action

theorem performs_relayed {action : BridgeAction}
    (haccepted : accepted namedSigner ⟨[], none⟩ (relayed req) = [req])
    (hexecuted : (history namedSigner ⟨[], none⟩ (relayed req)).2.map
      (fun e => (e.request.core, e.action)) = [(req.core, action)]) :
    Performs namedSigner ⟨[], none⟩ (relayed req) req action := by
  refine ⟨haccepted ▸ mem_singleton_self req, ?_⟩
  have hmem : (req.core, action) ∈ (history namedSigner ⟨[], none⟩ (relayed req)).2.map
      (fun e => (e.request.core, e.action)) := hexecuted ▸ mem_singleton_self _
  obtain ⟨e, he, heq⟩ := mem_map.mp hmem
  exact ⟨e, he, congrArg Prod.fst heq, congrArg Prod.snd heq⟩

/-- One deposit, brought to two relayers with different symbols. -/
theorem sealed_deposits_agree : performedBy (relayed (sealedDeposit "ZBX")) =
        [.mintOnTarget .bsc nativeZbxSentinel "ZBX" 0xb1 500 (sealedDeposit "ZBX").id] ∧
      ∃ action, performedBy (relayed (sealedDeposit "wZBX")) = [action] ∧
        (BridgeAction.mintOnTarget .bsc nativeZbxSentinel "ZBX" 0xb1 500
          (sealedDeposit "ZBX").id).terms = action.terms := by
  have hfresh : Fresh ⟨[], none⟩ := nofun
  have hdone : ∀ symbol ∈ ["ZBX", "wZBX"], Performs namedSigner ⟨[], none⟩
      (relayed (sealedDeposit symbol)) (sealedDeposit symbol)
      (.mintOnTarget .bsc nativeZbxSentinel symbol 0xb1 500 (sealedDeposit symbol).id) := by
    intro symbol hsymbol
    refine performs_relayed ?_ ?_
    all_goals
      revert symbol
      decide +kernel
  have hfree : CollisionFree
      (hashedFor (sealedDeposit "ZBX") (sealedDeposit "wZBX")) :=
    collisionFree_of_nodup (by decide +kernel)
  refine ⟨by decide +kernel, .mintOnTarget .bsc nativeZbxSentinel "wZBX" 0xb1 500
    (sealedDeposit "wZBX").id, by decide +kernel, ?_⟩
  exact (signature_binds_iff hfresh hfresh (hdone "ZBX" (by simp)) (hdone "wZBX" (by simp)) hfree
    rfl).2 rfl rfl

/-- With an id that is not checked, the same hash is signed for a mint on Ethereum, a mint on BSC
and an unlock, and relayers of one chain perform each of them. -/
theorem one_hash_three_actions :
    (unsealed .deposit .ethereum).msgHash = (unsealed .deposit .bsc).msgHash ∧
      (unsealed .deposit .ethereum).msgHash = (unsealed .withdrawal .ethereum).msgHash ∧
      performedBy (relayed (unsealed .deposit .ethereum)) =
        [.mintOnTarget .ethereum nativeZbxSentinel "ZBX" 0xb1 500 1] ∧
      performedBy (relayed (unsealed .deposit .bsc)) =
        [.mintOnTarget .bsc nativeZbxSentinel "ZBX" 0xb1 500 1] ∧
      performedBy (relayed (unsealed .withdrawal .ethereum)) =
        [.unlockOnZbx nativeZbxSentinel "ZBX" 0xb1 500 1] :=
  ⟨rfl, rfl, by decide +kernel, by decide +kernel, by decide +kernel⟩

end ZbxChain.Bridge
