import ZbxChain.Bridge.Relayer

/-!
# A bridge operation is executed at most once

The life of a relayer whose store of spent operations is durable: calls of its methods, crashes
at any point of `execute`, and new starts, which load the store. An operation that has been
executed is in the store and, while the relayer is up, also in its memory (`Guarded`), so that it
is not executed again.
-/

namespace ZbxChain.Bridge

open Interaction BridgeRelayer List Option

/-! ## The service -/

structure Service where
  store : List H256
  relayer : Option BridgeRelayer

/-- What becomes of a write to the store. One that fails may have landed all the same. -/
inductive WriteOutcome
  | durable
  | failed (msg : String) (landed : Bool)

def WriteOutcome.reply : WriteOutcome → Except String Unit
  | .durable => .ok ()
  | .failed msg _ => .error msg

def WriteOutcome.write (outcome : WriteOutcome) (hash : H256) (store : List H256) : List H256 :=
  match outcome with
  | .durable => hash :: store
  | .failed _ landed => if landed then hash :: store else store

def access (outcome : WriteOutcome) :
    (q : Access) → List H256 × BridgeRelayer → Reply q × (List H256 × BridgeRelayer)
  | .self, (store, r) => (r, (store, r))
  | .persistOne hash, (store, r) => (outcome.reply, (outcome.write hash store, r))
  | .markSpent hash, (store, r) => ((), (store, { r with auth := r.auth.markSpent hash }))
  | .complete id, (store, r) => ((), (store, r.complete id))

/-- What happens to the service. The process stops after `steps` accesses of `execute`, unless it
has returned by then. A start makes a new relayer and attaches the store, which may fail to load. -/
inductive Call
  | submit (req : BridgeRequest) (timestamp : UInt64)
  | confirm (id : H256) (signer : Address) (sig : Signature) (timestamp : UInt64)
  | setProof (id : H256) (proof : BridgeProof)
  | setPaused (paused : Bool)
  | registerToken (token : BridgeToken)
  | setTokenEnabled (token : Address) (enabled : Bool)
  | loadSpentOps (hashes : List H256)
  | expireStale (timestamp : UInt64)
  | execute (id receiptsRoot : H256) (timestamp : UInt64) (outcome : WriteOutcome) (steps : Nat)
  | crash
  | start (keys : List MultisigKey) (ownChainId : UInt64) (loadError : Option String)

/-- An `Ok` of `execute`: the signers known to the relayer, the request and the action. -/
structure Executed where
  auth : MultisigAuth
  request : BridgeRequest
  action : BridgeAction

def executedBy (r : BridgeRelayer) (id : H256) (result : BridgeResult BridgeAction) :
    List Executed :=
  match result, r.pending.lookup id with
  | .ok action, some req => [⟨r.auth, req, action⟩]
  | _, _ => []

namespace Service

def update (s : Service) (f : BridgeRelayer → BridgeRelayer) : Service :=
  { s with relayer := s.relayer.map f }

def loaded (s : Service) (loadError : Option String) : Except String (List H256) :=
  match loadError with
  | some e => .error e
  | none => .ok s.store

def started (s : Service) (keys : List MultisigKey) (ownChainId : UInt64)
    (loadError : Option String) : Option BridgeRelayer :=
  (BridgeRelayer.new keys ownChainId).bind fun r =>
    (r.attachStorage (s.loaded loadError)).toOption

def afterExecute (result : Option (BridgeResult BridgeAction) × (List H256 × BridgeRelayer)) :
    Service :=
  ⟨result.2.1, if result.1.isSome then some result.2.2 else none⟩

theorem relayer_afterExecute
    {result : Option (BridgeResult BridgeAction) × (List H256 × BridgeRelayer)}
    {r : BridgeRelayer} (h : (afterExecute result).relayer = some r) : result.2.2 = r := by
  unfold afterExecute at h
  split at h
  · exact some.inj h
  · cases h

def step (recover : Recovery) (s : Service) : Call → Service × List Executed
  | .submit req timestamp =>
    (s.update fun r => ((r.submit req timestamp).toOption.map Prod.snd).getD r, [])
  | .confirm id signer sig timestamp =>
    (s.update fun r => (r.confirm recover id signer sig timestamp).2, [])
  | .setProof id proof => (s.update (·.setProof id proof), [])
  | .setPaused paused => (s.update (·.setPaused paused), [])
  | .registerToken token => (s.update (·.registerToken token), [])
  | .setTokenEnabled token enabled => (s.update (·.setTokenEnabled token enabled), [])
  | .loadSpentOps hashes => (s.update (·.loadSpentOps hashes), [])
  | .expireStale timestamp => (s.update fun r => (r.expireStale timestamp).2, [])
  | .execute id receiptsRoot timestamp outcome steps =>
    match s.relayer with
    | none => (s, [])
    | some r =>
      let result := runFor (access outcome) steps (execute recover id receiptsRoot timestamp)
        (s.store, r)
      (afterExecute result, (result.1.map (executedBy r id)).getD [])
  | .crash => ({ s with relayer := none }, [])
  | .start keys ownChainId loadError =>
    ({ s with relayer := s.started keys ownChainId loadError }, [])

def history (recover : Recovery) : Service → List Call → Service × List Executed
  | s, [] => (s, [])
  | s, call :: calls =>
    ((history recover (s.step recover call).1 calls).1,
      (s.step recover call).2 ++ (history recover (s.step recover call).1 calls).2)

end Service

/-! ## One execution -/

variable {recover : Recovery} {outcome : WriteOutcome} {store : List H256} {r : BridgeRelayer}
  {id receiptsRoot : H256} {timestamp : UInt64} {action : BridgeAction}

def settled (req : BridgeRequest) (id receiptsRoot : H256) (store : List H256) (r : BridgeRelayer) :
    BridgeResult BridgeAction × (List H256 × BridgeRelayer) :=
  let marked : BridgeRelayer := { r with auth := r.auth.markSpent req.msgHash }
  match checkProof req receiptsRoot with
  | .error e => (.error e, (store, marked))
  | .ok _ => (.ok (req.action id), (store, marked.complete id))

theorem run_settle (req : BridgeRequest) :
    run (access outcome) (settle req id receiptsRoot) (store, r) =
      settled req id receiptsRoot store r := by
  simp only [settle, settled, run, access]
  cases checkProof req receiptsRoot <;> rfl

theorem run_execute : run (access outcome) (execute recover id receiptsRoot timestamp) (store, r) =
      match authorize recover r id timestamp with
      | .error e => (.error e, (store, r))
      | .ok req =>
        if r.hasStore then
          match outcome with
          | .durable => settled req id receiptsRoot (req.msgHash :: store) r
          | .failed msg landed => (.error (.persistenceFailure msg),
              (if landed then req.msgHash :: store else store, r))
        else settled req id receiptsRoot store r := by
  show run _ (match authorize recover r id timestamp with
    | .error e => .ret (.error e)
    | .ok req => persistAndSettle r req id receiptsRoot) _ = _
  cases authorize recover r id timestamp with
  | error e => rfl
  | ok req =>
    dsimp only [persistAndSettle]
    split
    · cases outcome with
      | durable => exact run_settle req
      | failed msg landed => rfl
    · exact run_settle req

theorem spent_complete (r : BridgeRelayer) (id : H256) :
    (r.complete id).auth = r.auth ∧ (r.complete id).hasStore = r.hasStore := by
  unfold complete
  cases r.pending.lookup id with
  | none | some req => exact ⟨rfl, rfl⟩

theorem run_execute_ok {p : List H256 × BridgeRelayer}
    (h : run (access outcome) (execute recover id receiptsRoot timestamp) (store, r) =
      (.ok action, p)) : ∃ req, Authorized recover r id req ∧ checkProof req receiptsRoot = .ok () ∧
      action = req.action id ∧ p = (if r.hasStore then req.msgHash :: store else store,
        ({ r with auth := r.auth.markSpent req.msgHash } : BridgeRelayer).complete id) := by
  rw [run_execute] at h
  cases hauth : authorize recover r id timestamp with
  | error e =>
    rw [hauth] at h
    cases h
  | ok req =>
    rw [hauth] at h
    have hsettled : settled req id receiptsRoot (if r.hasStore then req.msgHash :: store else store)
        r = (.ok action, p) := by
      dsimp only at h
      split at h
      · next hstore =>
        rw [if_pos hstore]
        cases outcome with
        | durable => exact h
        | failed msg landed => cases h
      · next hstore =>
        rw [if_neg hstore]
        exact h
    unfold settled at hsettled
    cases hproof : checkProof req receiptsRoot with
    | error e =>
      rw [hproof] at hsettled
      cases hsettled
    | ok u =>
      rw [hproof] at hsettled
      cases hsettled
      exact ⟨req, authorize_ok hauth, hproof, rfl, rfl⟩

/-! ## The invariant -/

structure Knows (done : List H256) (r : BridgeRelayer) : Prop where
  hasStore : r.hasStore = true
  threshold : r.auth.threshold = multisigThreshold
  spent : ∀ hash ∈ done, hash ∈ r.auth.spentOperations

/-- What has been executed is in the store, and known to the relayer when it is up. -/
structure Guarded (done : List H256) (s : Service) : Prop where
  stored : ∀ hash ∈ done, hash ∈ s.store
  known : ∀ r, s.relayer = some r → Knows done r

variable {done : List H256}

theorem Knows.of_auth_eq {r' : BridgeRelayer} (h : Knows done r) (hauth : r'.auth = r.auth)
    (hstore : r'.hasStore = r.hasStore) : Knows done r' := by
  refine ⟨hstore.trans h.hasStore, ?_, ?_⟩
  · rw [hauth]
    exact h.threshold
  · rw [hauth]
    exact h.spent

theorem Knows.loadSpentOps (h : Knows done r) (hashes : List H256) :
    Knows done (r.loadSpentOps hashes) :=
  ⟨h.hasStore, h.threshold, fun hash hmem => mem_append_right _ (h.spent hash hmem)⟩

theorem Knows.markSpent (h : Knows done r) (hash : H256) :
    Knows (hash :: done) { r with auth := r.auth.markSpent hash } := by
  refine ⟨h.hasStore, h.threshold, ?_⟩
  intro other hother
  rcases mem_cons.mp hother with rfl | hmem
  · exact mem_cons_self
  · exact mem_cons_of_mem _ (h.spent other hmem)

theorem Knows.weaken {done' : List H256} (h : Knows done' r) (hsub : ∀ x ∈ done, x ∈ done') :
    Knows done r :=
  ⟨h.hasStore, h.threshold, fun hash hmem => h.spent hash (hsub hash hmem)⟩

theorem Knows.submit (h : Knows done r) (req : BridgeRequest) (timestamp : UInt64) :
    Knows done (((r.submit req timestamp).toOption.map Prod.snd).getD r) := by
  cases hsubmit : r.submit req timestamp with
  | error e => exact h
  | ok result =>
    obtain ⟨-, -, hresult⟩ := submit_ok hsubmit
    show Knows done result.2
    rw [hresult]
    exact h.of_auth_eq rfl rfl

variable (recover r id) in
theorem confirm_cases (signer : Address)
    (sig : Signature) (timestamp : UInt64) : (r.confirm recover id signer sig timestamp).2 = r ∨
      ∃ req, r.pending.lookup id = some req ∧
        r.auth.verifySingle recover req.msgHash signer sig = .ok () ∧
        (r.confirm recover id signer sig timestamp).2 =
          { r with pending := r.pending.insert id (req.addConfirmation signer sig) } := by
  unfold BridgeRelayer.confirm
  cases r.pending.lookup id with
  | none => exact .inl rfl
  | some req =>
    dsimp only
    split
    · exact .inl rfl
    split
    · exact .inl rfl
    cases hvalid : r.auth.verifySingle recover req.msgHash signer sig with
    | error e => exact .inl rfl
    | ok u => exact .inr ⟨req, rfl, hvalid, rfl⟩

theorem Knows.confirm (h : Knows done r) (id : H256) (signer : Address) (sig : Signature)
    (timestamp : UInt64) : Knows done (r.confirm recover id signer sig timestamp).2 := by
  rcases confirm_cases recover r id signer sig timestamp with hsame | ⟨req, -, -, hnew⟩
  · rwa [hsame]
  · exact h.of_auth_eq (by rw [hnew]) (by rw [hnew])

theorem Knows.setProof (h : Knows done r) (id : H256) (proof : BridgeProof) :
    Knows done (r.setProof id proof) := by
  unfold BridgeRelayer.setProof
  cases r.pending.lookup id with
  | none => exact h
  | some req => exact h.of_auth_eq rfl rfl

theorem Knows.complete (h : Knows done r) (id : H256) : Knows done (r.complete id) :=
  h.of_auth_eq (spent_complete r id).1 (spent_complete r id).2

theorem access_keeps {q : Access} {p : List H256 × BridgeRelayer}
    (h : (∀ hash ∈ done, hash ∈ p.1) ∧ Knows done p.2) :
    (∀ hash ∈ done, hash ∈ (access outcome q p).2.1) ∧ Knows done (access outcome q p).2.2 := by
  obtain ⟨store, r⟩ := p
  cases q with
  | self => exact h
  | persistOne hash =>
    refine ⟨?_, h.2⟩
    intro other hother
    have hmem : other ∈ store := h.1 other hother
    cases outcome with
    | durable => exact mem_cons_of_mem _ hmem
    | failed msg landed =>
      cases landed with
      | true => exact mem_cons_of_mem _ hmem
      | false => exact hmem
  | markSpent hash =>
    exact ⟨h.1, (h.2.markSpent hash).weaken fun x hx => mem_cons_of_mem _ hx⟩
  | complete id => exact ⟨h.1, h.2.complete id⟩

variable {s : Service}

theorem Guarded.update (h : Guarded done s) {f : BridgeRelayer → BridgeRelayer}
    (hf : ∀ r, Knows done r → Knows done (f r)) : Guarded done (s.update f) := by
  refine ⟨h.stored, ?_⟩
  intro r hr
  obtain ⟨r₀, hr₀, rfl⟩ := map_eq_some_iff.mp hr
  exact hf r₀ (h.known r₀ hr₀)

theorem Guarded.start (h : Guarded done s) (keys : List MultisigKey)
    (ownChainId : UInt64) (loadError : Option String) :
    Guarded done { s with relayer := s.started keys ownChainId loadError } := by
  refine ⟨h.stored, ?_⟩
  intro r hr
  obtain ⟨r₀, hnew, hattach⟩ := bind_eq_some_iff.mp hr
  obtain ⟨auth, hauth, rfl⟩ := map_eq_some_iff.mp hnew
  cases loadError with
  | some e => cases hattach
  | none =>
    cases hattach
    refine ⟨rfl, ?_, fun hash hmem => mem_append_left _ (h.stored hash hmem)⟩
    unfold MultisigAuth.new at hauth
    split at hauth
    · cases hauth
      rfl
    · cases hauth

def Quorum (recover : Recovery) (e : Executed) : Prop :=
  e.auth.threshold = multisigThreshold ∧
    e.auth.verifyThreshold recover e.request.msgHash e.request.confirmations = .ok ()

theorem Guarded.execute {s : Service} (h : Guarded done s) (hr : s.relayer = some r) (n : Nat)
    (result : Option (BridgeResult BridgeAction) × (List H256 × BridgeRelayer))
    (hresult : result = runFor (access outcome) n (execute recover id receiptsRoot timestamp)
      (s.store, r)) : (∃ e, (result.1.map (executedBy r id)).getD [] = [e] ∧ Quorum recover e ∧
        e.request.msgHash ∉ done ∧ Guarded (e.request.msgHash :: done) (.afterExecute result)) ∨
      (result.1.map (executedBy r id)).getD [] = [] ∧ Guarded done (.afterExecute result) := by
  have hknows := h.known r hr
  have hkept : (∀ hash ∈ done, hash ∈ result.2.1) ∧ Knows done result.2.2 := by
    rw [hresult]
    exact runFor_invariant
      (P := fun p : List H256 × BridgeRelayer => (∀ hash ∈ done, hash ∈ p.1) ∧ Knows done p.2) n
      (fun q p hp => access_keeps hp) ⟨h.stored, hknows⟩
  have hguarded : Guarded done (.afterExecute result) := by
    refine ⟨hkept.1, ?_⟩
    intro r' hr'
    obtain rfl := Service.relayer_afterExecute hr'
    exact hkept.2
  cases hfinished : result.1 with
  | none => exact .inr ⟨rfl, hguarded⟩
  | some res =>
    cases res with
    | error e =>
      refine .inr ⟨?_, hguarded⟩
      rfl
    | ok action =>
      rw [hresult] at hfinished
      obtain ⟨req, hauth, -, -, hstate⟩ := run_execute_ok (run_of_runFor hfinished)
      rw [if_pos hknows.hasStore] at hstate
      refine .inl ⟨⟨r.auth, req, action⟩, ?_, ⟨hknows.threshold, hauth.quorum⟩, ?_, ?_⟩
      · show executedBy r id (.ok action) = _
        unfold executedBy
        rw [hauth.pending]
      · exact fun hmem => hauth.fresh (hknows.spent _ hmem)
      rw [← hresult] at hstate
      constructor
      · intro hash hmem
        show hash ∈ result.2.1
        rw [hstate]
        rcases mem_cons.mp hmem with rfl | hold
        · exact mem_cons_self
        · exact mem_cons_of_mem _ (h.stored hash hold)
      intro r' hr'
      rw [← Service.relayer_afterExecute hr', hstate]
      exact (hknows.markSpent req.msgHash).complete id

theorem Guarded.step (h : Guarded done s) (recover : Recovery) (call : Call) :
    (∃ e, (s.step recover call).2 = [e] ∧ Quorum recover e ∧ e.request.msgHash ∉ done ∧
        Guarded (e.request.msgHash :: done) (s.step recover call).1) ∨
      (s.step recover call).2 = [] ∧ Guarded done (s.step recover call).1 := by
  cases call with
  | submit req timestamp => exact .inr ⟨rfl, h.update fun r hr => hr.submit req timestamp⟩
  | confirm id signer sig timestamp =>
    exact .inr ⟨rfl, h.update fun r hr => hr.confirm id signer sig timestamp⟩
  | setProof id proof => exact .inr ⟨rfl, h.update fun r hr => hr.setProof id proof⟩
  | setPaused paused | registerToken token =>
    exact .inr ⟨rfl, h.update fun r hr => hr.of_auth_eq rfl rfl⟩
  | setTokenEnabled token enabled =>
    exact .inr ⟨rfl, h.update fun r hr => hr.of_auth_eq rfl rfl⟩
  | loadSpentOps hashes => exact .inr ⟨rfl, h.update fun r hr => hr.loadSpentOps hashes⟩
  | expireStale timestamp => exact .inr ⟨rfl, h.update fun r hr => hr.of_auth_eq rfl rfl⟩
  | execute id receiptsRoot timestamp outcome steps =>
    unfold Service.step
    cases hr : s.relayer with
    | none => exact .inr ⟨rfl, h⟩
    | some r => exact h.execute hr steps _ rfl
  | crash => exact .inr ⟨rfl, h.stored, nofun⟩
  | start keys ownChainId loadError => exact .inr ⟨rfl, h.start keys ownChainId loadError⟩

theorem Guarded.history (h : Guarded done s) (recover : Recovery) (calls : List Call) :
    ((s.history recover calls).2.map (·.request.msgHash)).Nodup ∧
      (∀ e ∈ (s.history recover calls).2, Quorum recover e ∧ e.request.msgHash ∉ done) := by
  induction calls generalizing s done with
  | nil => exact ⟨nodup_nil, by simp [Service.history]⟩
  | cons call calls ih =>
    simp only [Service.history]
    rcases h.step recover call with ⟨e, he, hquorum, hnew, hnext⟩ | ⟨hnone, hnext⟩
    · rw [he]
      obtain ⟨hnodup, hrest⟩ := ih hnext
      constructor
      · refine nodup_cons.mpr ⟨?_, hnodup⟩
        intro hmem
        obtain ⟨e', he', heq⟩ := mem_map.mp hmem
        exact (hrest e' he').2 (heq ▸ mem_cons_self)
      intro e' he'
      rcases mem_cons.mp he' with rfl | hmem
      · exact ⟨hquorum, hnew⟩
      · exact ⟨(hrest e' hmem).1, fun hold => (hrest e' hmem).2 (mem_cons_of_mem _ hold)⟩
    · rw [hnone]
      exact ih hnext

/-- **At most once, and only with a quorum.** Whatever calls, crashes and starts a service goes
through, no two executions that return `Ok` are for the same message hash, and each of them comes
with signatures over that hash by at least `multisigThreshold` different registered signers. -/
theorem executes_at_most_once (recover : Recovery) (Signs : Address → H256 → Signature → Prop)
    (hrecover : ∀ hash sig addr, recover hash sig = .ok addr → Signs addr hash sig)
    (store : List H256) (calls : List Call) :
    ((Service.history recover ⟨store, none⟩ calls).2.map (·.request.msgHash)).Nodup ∧
      ∀ e ∈ (Service.history recover ⟨store, none⟩ calls).2,
        ∃ signers : List Address, signers.Nodup ∧ multisigThreshold ≤ signers.length ∧
          ∀ addr ∈ signers, (∃ k ∈ e.auth.keys, k.address = addr) ∧
            ∃ sig, (addr, sig) ∈ e.request.confirmations ∧ Signs addr e.request.msgHash sig := by
  have hstart : Guarded [] ⟨store, none⟩ := ⟨by simp, nofun⟩
  obtain ⟨hnodup, hquorum⟩ := hstart.history recover calls
  refine ⟨hnodup, ?_⟩
  intro e he
  obtain ⟨hthreshold, haccepted⟩ := (hquorum e he).1
  obtain ⟨signers, hsigners, hcount, hconfirms⟩ := MultisigAuth.verifyThreshold_ok haccepted
  refine ⟨signers, hsigners, hthreshold ▸ hcount, ?_⟩
  intro addr haddr
  obtain ⟨hregistered, sig, hmem, hvalid⟩ := hconfirms addr haddr
  exact ⟨hregistered, sig, hmem, hrecover _ _ _ hvalid⟩

/-! ## A run -/

/-- Three signers. A signature is taken to name its maker, in the low bytes of `r`. -/
def sampleKeys : List MultisigKey := [⟨0xa1, "a"⟩, ⟨0xa2, "b"⟩, ⟨0xa3, "c"⟩]

def sampleSig (signer : Address) : Signature := ⟨27, signer.setWidth 256, 0⟩

def namedSigner : Recovery := fun _ sig => .ok (sig.r.setWidth 160)

def sampleRequest (id : H256) (recipient : Address) : BridgeRequest where
  id := id
  requestType := .withdrawal
  token := nativeZbxSentinel
  tokenSymbol := "ZBX"
  sender := 0xb0
  recipient := recipient
  amount := 500
  fee := 0
  targetChain := .ethereum
  sourceChainId := 8989
  blockNumber := 7
  proof := some ⟨0xfeed, 0, 7, [], 0⟩
  confirmations := []
  executed := false
  timestamp := 1000

def sampleRelayer : BridgeRelayer :=
  ⟨⟨sampleKeys, multisigThreshold, []⟩, .defaultMainnet, ∅, ∅, ∅, false, 8989, true⟩

def bridged (id : H256) (recipient : Address) : List Call :=
  .submit (sampleRequest id recipient) 1000 ::
    sampleKeys.map (fun k => .confirm id k.address (sampleSig k.address) 1000) ++
    [.execute id 0xfeed 1000 .durable 4]

/-- The request is executed, its relayer crashes, and it is brought in again; the second
execution is refused. -/
def replayedRequest : List Call :=
  .start sampleKeys 8989 none :: bridged 1 0xb1 ++ .crash :: .start sampleKeys 8989 none ::
    bridged 1 0xb1

theorem replayed_request_once :
    (Service.history namedSigner ⟨[], none⟩ replayedRequest).2.length = 1 ∧
      ((Service.history namedSigner ⟨[], none⟩ replayedRequest).2.map (·.request.msgHash)).Nodup :=
  ⟨by decide +kernel, (executes_at_most_once namedSigner
    (fun addr hash sig => namedSigner hash sig = .ok addr) (fun _ _ _ h => h) []
    replayedRequest).1⟩

end ZbxChain.Bridge
