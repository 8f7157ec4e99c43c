import ZbxChain.Bridge.AtMostOnce

/-!
# What a receipt proof justifies

A request is executed on the proof of a receipt. The proof shows that some receipt hash lies
under the receipts root, but nothing compares the receipt with the request: the hash is any leaf
that the submitter names.
-/

namespace ZbxChain.Bridge

open Interaction BridgeRelayer

structure Transfer where
  token : Address
  sender : Address
  recipient : Address
  amount : U128
  direction : BridgeRequestType
  deriving DecidableEq

def BridgeRequest.transfer (req : BridgeRequest) : Transfer :=
  ⟨req.token, req.sender, req.recipient, req.amount, req.requestType⟩

def BridgeRequest.provedReceipt (req : BridgeRequest) : Option H256 :=
  req.proof.map BridgeProof.receiptHash

/-- The checks of `execute` on a request: those before the first write, and that of its proof. -/
structure Passes (recover : Recovery) (r : BridgeRelayer) (id receiptsRoot : H256)
    (timestamp : UInt64) (req : BridgeRequest) : Prop where
  authorized : r.authorize recover id timestamp = .ok req
  proved : checkProof req receiptsRoot = .ok ()

/-- `execute` returns `Ok` for the request, with a store that takes the write. -/
def Executes (recover : Recovery) (store : List H256) (r : BridgeRelayer) (id receiptsRoot : H256)
    (timestamp : UInt64) (req : BridgeRequest) : Prop :=
  r.pending.lookup id = some req ∧
    ∃ action, (run (access .durable) (execute recover id receiptsRoot timestamp) (store, r)).1 =
      .ok action

variable {recover : Recovery} {store store' : List H256} {r r' : BridgeRelayer}
  {id id' receiptsRoot : H256} {timestamp timestamp' : UInt64} {req req' : BridgeRequest}

theorem settled_ok : (∃ action, (settled req id receiptsRoot store r).1 = .ok action) ↔
    checkProof req receiptsRoot = .ok () := by
  unfold settled
  cases checkProof req receiptsRoot with
  | error e => simp
  | ok u => simp

theorem executes_iff : Executes recover store r id receiptsRoot timestamp req ↔
    Passes recover r id receiptsRoot timestamp req := by
  unfold Executes
  rw [run_execute]
  cases hauth : r.authorize recover id timestamp with
  | error e =>
    constructor
    · rintro ⟨-, action, hrun⟩
      cases hrun
    rintro ⟨hauthorized, -⟩
    rw [hauth] at hauthorized
    cases hauthorized
  | ok req₀ =>
    have hpending := (authorize_ok hauth).pending
    have hpasses : r.pending.lookup id = some req ∧ checkProof req₀ receiptsRoot = .ok () ↔
        Passes recover r id receiptsRoot timestamp req := by
      constructor
      · rintro ⟨hreq, hproved⟩
        obtain rfl : req₀ = req := Option.some.inj (hpending.symm.trans hreq)
        exact ⟨hauth, hproved⟩
      rintro ⟨hauthorized, hproved⟩
      obtain rfl : req₀ = req := Except.ok.inj (hauth.symm.trans hauthorized)
      exact ⟨hpending, hproved⟩
    dsimp only
    split <;> rwa [settled_ok]

/-- The receipt that the request is executed on records its transfer; `recorded` reads the
transfer off the bytes of a receipt. -/
def Justified (receipts : Set Bytes) (recorded : Bytes → Option Transfer) (req : BridgeRequest) :
    Prop :=
  ∃ receipt ∈ receipts, req.provedReceipt = some (keccak256 receipt) ∧
    recorded receipt = some req.transfer

theorem Justified.transfer_eq {receipts : Set Bytes} {recorded : Bytes → Option Transfer}
    (hfree : CollisionFree receipts) (h : Justified receipts recorded req)
    (h' : Justified receipts recorded req') (hsame : req.provedReceipt = req'.provedReceipt) :
    req.transfer = req'.transfer := by
  obtain ⟨receipt, hmem, hhash, hrec⟩ := h
  obtain ⟨receipt', hmem', hhash', hrec'⟩ := h'
  rw [hhash, hhash'] at hsame
  have heq : receipt = receipt' := hfree.eq hmem hmem' (Option.some.inj hsame)
  rw [heq, hrec'] at hrec
  exact (Option.some.inj hrec).symm

theorem authorize_setProof (hpending : r.pending.lookup id = some req) (proof : BridgeProof) :
    (r.setProof id proof).authorize recover id timestamp =
      (r.authorize recover id timestamp).map (·.setProof proof) := by
  have hset : r.setProof id proof = { r with pending := r.pending.insert id (req.setProof proof) } := by
    unfold BridgeRelayer.setProof
    rw [hpending]
  have hexpired : (req.setProof proof).isExpired timestamp = req.isExpired timestamp := rfl
  have hsource : (req.setProof proof).sourceChainId = req.sourceChainId := rfl
  have hhash : (req.setProof proof).msgHash = req.msgHash := rfl
  have hconfirmed : (req.setProof proof).confirmations = req.confirmations := rfl
  unfold authorize
  rw [hset, AList.lookup_insert, hpending]
  dsimp only
  rw [hexpired, hsource, hhash, hconfirmed]
  cases req.isExpired timestamp with
  | true => rfl
  | false =>
    by_cases hown : req.sourceChainId = r.ownChainId
    · cases r.auth.isSpent req.msgHash <;>
        cases r.auth.verifyThreshold recover req.msgHash req.confirmations <;> simp [hown] <;> rfl
    · simp [hown]
      rfl

def bareProof : BridgeProof := ⟨0, 0, 0, [], 0⟩

theorem executes_bareProof (h : r.authorize recover id timestamp = .ok req) :
    Executes recover store (r.setProof id bareProof) id 0 timestamp (req.setProof bareProof) := by
  refine executes_iff.mpr ⟨?_, rfl⟩
  rw [authorize_setProof (authorize_ok h).pending, h]
  rfl

theorem authorize_of_executes (hpending : r.pending.lookup id = some req) {proof : BridgeProof}
    (h : Executes recover store (r.setProof id proof) id receiptsRoot timestamp
      (req.setProof proof)) : r.authorize recover id timestamp = .ok req := by
  have hauthorized := (executes_iff.mp h).authorized
  rw [authorize_setProof hpending] at hauthorized
  cases hauth : r.authorize recover id timestamp with
  | error e =>
    rw [hauth] at hauthorized
    cases hauthorized
  | ok req₀ =>
    obtain rfl : req₀ = req := Option.some.inj ((authorize_ok hauth).pending.symm.trans hpending)
    rfl

/-- **One receipt, one transfer.** Of two pending requests that ask for different transfers, the
proofs that can be attached to them for execution have different receipts exactly when the two
requests are not both authorized: one proof serves for both. Requests that come with the
receipts of their own transfers have different ones. -/
theorem receipt_proof_binds_iff {receipts : Set Bytes} (hfree : CollisionFree receipts)
    (recorded : Bytes → Option Transfer) (hpending : r.pending.lookup id = some req)
    (hpending' : r'.pending.lookup id' = some req') (hdiff : req.transfer ≠ req'.transfer) :
    ((∀ receiptsRoot proof proof',
        Executes recover store (r.setProof id proof) id receiptsRoot timestamp
          (req.setProof proof) →
        Executes recover store' (r'.setProof id' proof') id' receiptsRoot timestamp'
          (req'.setProof proof') → proof.receiptHash ≠ proof'.receiptHash) ↔
      ¬ (r.authorize recover id timestamp = .ok req ∧
        r'.authorize recover id' timestamp' = .ok req')) ∧
    (Justified receipts recorded req → Justified receipts recorded req' →
      req.provedReceipt ≠ req'.provedReceipt) := by
  refine ⟨⟨?_, fun hnot root proof proof' hexec hexec' => ?_⟩, fun h h' hsame => ?_⟩
  · rintro hbinds ⟨hauth, hauth'⟩
    exact hbinds 0 bareProof bareProof (executes_bareProof hauth) (executes_bareProof hauth') rfl
  · exact absurd
      ⟨authorize_of_executes hpending hexec, authorize_of_executes hpending' hexec'⟩ hnot
  · exact hdiff (h.transfer_eq hfree h' hsame)

/-! ## Two requests -/

/-- A request with its confirmations, and the proof of the receipt at an index of a block with
two. -/
def provedRequest (recipient : Address) (receiptHash sibling : H256) (index : UInt32) :
    BridgeRequest :=
  { sampleRequest 1 recipient with
    proof := some ⟨receiptHash, 0, 7, [sibling], index⟩
    confirmations := sampleKeys.map fun k => (k.address, sampleSig k.address) }

def holding (req : BridgeRequest) : BridgeRelayer :=
  ⟨⟨sampleKeys, multisigThreshold, []⟩, .defaultMainnet, ∅, AList.singleton req.id req, ∅, false,
    8989, true⟩

def toFirst : BridgeRequest := provedRequest 0xb1 (keccak256 [1]) (keccak256 [2]) 0

def toSecond : BridgeRequest := provedRequest 0xb2 (keccak256 [2]) (keccak256 [1]) 1

def recordedTransfer (receipt : Bytes) : Option Transfer :=
  if receipt = [1] then some toFirst.transfer
  else if receipt = [2] then some toSecond.transfer else none

/-- The two requests come with different receipts, but can be given one that serves for both. -/
theorem own_receipts_differ : toFirst.provedReceipt ≠ toSecond.provedReceipt ∧
    ¬ ∀ receiptsRoot proof proof',
      Executes namedSigner [] ((holding toFirst).setProof 1 proof) 1 receiptsRoot 1000
        (toFirst.setProof proof) →
      Executes namedSigner [] ((holding toSecond).setProof 1 proof') 1 receiptsRoot 1000
        (toSecond.setProof proof') → proof.receiptHash ≠ proof'.receiptHash := by
  have hfree : CollisionFree {e | e ∈ [[1], [2]]} := collisionFree_of_nodup (by decide +kernel)
  have hfirst : Justified {e | e ∈ [[1], [2]]} recordedTransfer toFirst :=
    ⟨[1], by simp, rfl, rfl⟩
  have hsecond : Justified {e | e ∈ [[1], [2]]} recordedTransfer toSecond :=
    ⟨[2], by simp, rfl, rfl⟩
  have hpending : (holding toFirst).pending.lookup 1 = some toFirst := rfl
  have hpending' : (holding toSecond).pending.lookup 1 = some toSecond := rfl
  constructor
  · exact (@receipt_proof_binds_iff namedSigner [] [] _ _ _ _ 1000 1000 _ _ _ hfree
      recordedTransfer hpending hpending' (by decide)).2 hfirst hsecond
  · intro hbinds
    refine (receipt_proof_binds_iff hfree recordedTransfer hpending hpending' (by decide)).1.mp
      hbinds ⟨?_, ?_⟩ <;> decide +kernel

/-- Requests to pay `0xb1` and `0xb2`, both with the proof of one receipt, are both executed. -/
theorem one_receipt_two_transfers : (Service.history namedSigner ⟨[], none⟩
      (.start sampleKeys 8989 none :: bridged 1 0xb1 ++ bridged 2 0xb2)).2.map
        (fun e => (e.request.recipient, e.request.provedReceipt)) =
      [(0xb1, some 0xfeed), (0xb2, some 0xfeed)] := by
  decide +kernel

end ZbxChain.Bridge

/-!
## Failed executions

`execute` marks an operation as spent before it looks at the proof, so that a call with a wrong
proof takes away every later one.
-/

namespace ZbxChain.Bridge

open Interaction BridgeRelayer MultisigAuth List Option

variable {recover : Recovery} {outcome : WriteOutcome} {store : List H256} {r : BridgeRelayer}
  {req : BridgeRequest} {id receiptsRoot : H256} {timestamp : UInt64} {e : BridgeError}
  {s : List H256 × BridgeRelayer}

structure Ready (recover : Recovery) (r : BridgeRelayer) (id receiptsRoot : H256)
    (timestamp : UInt64) (req : BridgeRequest) : Prop where
  pending : r.pending.lookup id = some req
  unexpired : req.isExpired timestamp = false
  chain : req.sourceChainId = r.ownChainId
  quorum : r.auth.verifyThreshold recover req.msgHash req.confirmations = .ok ()
  proved : checkProof req receiptsRoot = .ok ()

theorem Ready.executes_iff (h : Ready recover r id receiptsRoot timestamp req) :
    (run (access .durable) (execute recover id receiptsRoot timestamp) (store, r)).1 =
      .ok (req.action id) ↔ req.msgHash ∉ r.auth.spentOperations := by
  have hauth : authorize recover r id timestamp =
      if req.msgHash ∈ r.auth.spentOperations then
        .error (.replayedOperation (hexEncode req.msgHash.toBytes))
      else .ok req := by
    simp [authorize, h.pending, h.unexpired, h.chain, h.quorum, isSpent]
  rw [run_execute, hauth]
  by_cases hspent : req.msgHash ∈ r.auth.spentOperations
  · simp [hspent]
  · simp [hspent, settled, h.proved, apply_ite Prod.fst]

/-- **Failed executions that can be made good.** An execution that fails leaves the operation
unspent, in memory and in the store, just when it failed before the write to the store, or on that
write and nothing of it landed. A later execution that has all it needs succeeds just when the
operation is not spent in memory. -/
theorem failed_execute_retryable_iff (hreq : r.pending.lookup id = some req)
    (h : run (access outcome) (execute recover id receiptsRoot timestamp) (store, r) =
      (.error e, s)) :
    ((req.msgHash ∈ s.2.auth.spentOperations → req.msgHash ∈ r.auth.spentOperations) ∧
        (req.msgHash ∈ s.1 → req.msgHash ∈ store) ↔
      (authorize recover r id timestamp = .ok req → r.hasStore = true ∧
        ∃ msg landed, outcome = .failed msg landed ∧ (landed = true → req.msgHash ∈ store))) ∧
    ∀ r' req' root later, Ready recover r' id root later req' → req'.msgHash = req.msgHash →
      r'.auth.spentOperations = s.2.auth.spentOperations →
      ((run (access .durable) (execute recover id root later) (s.1, r')).1 =
        .ok (req'.action id) ↔ req.msgHash ∉ s.2.auth.spentOperations) := by
  refine ⟨?_, ?_⟩
  · rw [run_execute] at h
    cases hauth : authorize recover r id timestamp with
    | error e' =>
      rw [hauth] at h
      cases h
      simp
    | ok req' =>
      obtain rfl : req' = req := some.inj ((authorize_ok hauth).pending.symm.trans hreq)
      have hfresh := (authorize_ok hauth).fresh
      -- a failure from the mark on leaves the mark
      have hsettled : ∀ store', settled req' id receiptsRoot store' r = (.error e, s) →
          req'.msgHash ∈ s.2.auth.spentOperations := by
        intro store' hrun
        unfold settled at hrun
        cases hproof : checkProof req' receiptsRoot with
        | error e' =>
          rw [hproof] at hrun
          cases hrun
          exact mem_cons_self
        | ok u =>
          rw [hproof] at hrun
          cases hrun
      rw [hauth] at h
      dsimp only at h
      split at h
      · next hstore =>
        cases outcome with
        | durable => simp [hsettled _ h, hfresh]
        | failed msg landed =>
          cases h
          cases landed <;> simp [hfresh, hstore]
      · next hstore => simp [hsettled _ h, hfresh, hstore]
  · intro r' req' root later hready hhash hsame
    rw [hready.executes_iff, hhash, hsame]

def unproved : BridgeRelayer :=
  { sampleRelayer with
    pending := AList.singleton 1 { sampleRequest 1 0xb1 with
      proof := none
      confirmations := sampleKeys.map fun k => (k.address, sampleSig k.address) } }

def executed (outcome : WriteOutcome) (s : List H256 × BridgeRelayer) :
    BridgeResult BridgeAction × (List H256 × BridgeRelayer) :=
  run (access outcome) (execute namedSigner 1 0xfeed 1000) s

def proved : BridgeRelayer := unproved.setProof 1 ⟨0xfeed, 0, 7, [], 0⟩

/-- A write that fails and does not land does no harm: with the proof, the retry succeeds. -/
theorem failed_write_retryable :
    (sampleRequest 1 0xb1).msgHash ∉ (executed (.failed "disk" false) ([], unproved)).2.1 ∧
      (executed .durable ([], proved)).1 = .ok ((sampleRequest 1 0xb1).action 1) := by
  have hrun : executed (.failed "disk" false) ([], unproved) =
      (.error (.persistenceFailure "disk"), ([], unproved)) := rfl
  have h := failed_execute_retryable_iff rfl hrun
  have hready : Ready namedSigner proved 1 0xfeed 1000 { sampleRequest 1 0xb1 with
      confirmations := sampleKeys.map fun k => (k.address, sampleSig k.address) } :=
    ⟨rfl, rfl, rfl, rfl, by decide⟩
  refine ⟨fun hmem => ?_, (h.2 proved _ 0xfeed 1000 hready rfl rfl).mpr (by simp [unproved, sampleRelayer])⟩
  exact absurd ((h.1.mpr fun _ => ⟨rfl, "disk", false, rfl, by simp⟩).2 hmem) (by simp)

/-- Without a proof, the execution fails and the operation is spent; with the proof, it is then
refused. -/
theorem unproved_operation_spent :
    (executed .durable ([], unproved)).1 = .error (.proofInvalid "no proof attached") ∧
      (sampleRequest 1 0xb1).msgHash ∈ (executed .durable ([], unproved)).2.1 ∧
      (executed .durable ([], (executed .durable ([], unproved)).2.2.setProof 1
        ⟨0xfeed, 0, 7, [], 0⟩)).1 =
        .error (.replayedOperation (hexEncode (sampleRequest 1 0xb1).msgHash.toBytes)) := by
  decide +kernel

end ZbxChain.Bridge

/-!
## The daily limits of the bridge

`usedOn` is what a relayer has accepted of a token on a day.
-/

namespace ZbxChain.Bridge

open BridgeRelayer DailyLimitTracker TokenWhitelist List

abbrev Submission := BridgeRequest × UInt64

/-- One submission; the accepted ones are listed. -/
def BridgeRelayer.take (s : BridgeRelayer × List Submission) (c : Submission) :
    BridgeRelayer × List Submission :=
  match s.1.submit c.1 c.2 with
  | .ok result => (result.2, c :: s.2)
  | .error _ => s

def usedOn (accepted : List Submission) (token : Address) (day : UInt64) : Nat :=
  ((accepted.filter fun c => c.1.token = token ∧ dayOf c.2 = day).map (·.1.amount.toNat)).sum

variable {r : BridgeRelayer} {timestamp now : UInt64} {token : Address}
  {s : BridgeRelayer × List Submission} {c : Submission}

theorem usedOn_cons (accepted : List Submission) (day : UInt64) : usedOn (c :: accepted) token day =
      (if c.1.token = token ∧ dayOf c.2 = day then c.1.amount.toNat else 0) +
        usedOn accepted token day := by
  unfold usedOn
  split <;> simp [*]

theorem dayOf_mono {a b : UInt64} (h : a ≤ b) : dayOf a ≤ dayOf b := by
  simpa [dayOf, UInt64.le_iff_toNat_le] using Nat.div_le_div_right (c := 86400) h

theorem bridgedToday_record (tracker : DailyLimitTracker) (amount : U128) (other : Address)
    (later : UInt64) : bridgedToday (record tracker token amount timestamp) other later =
      if other = token then
        if dayOf timestamp = dayOf later then bridgedToday tracker token timestamp + amount else 0
      else bridgedToday tracker other later := by
  split
  · next htoken =>
    subst htoken
    simp [bridgedToday, record]
  · next htoken => simp [bridgedToday, record, AList.lookup_insert_ne htoken]

theorem lookup_defaultMainnet {t : BridgeToken} (h : defaultMainnet.lookup token = some t) :
    t.dailyLimit.toNat + t.maxPerTx.toNat < 2 ^ 128 := by
  have hmem : t ∈ [BridgeToken.zusd zusdGenesisAddr, .nativeZbx] :=
    mem_map_of_mem (f := Sigma.snd) (AList.mem_lookup_iff.mp h)
  rcases mem_pair.mp hmem with rfl | rfl <;> decide

structure Metered (now : UInt64) (s : BridgeRelayer × List Submission) : Prop where
  whitelist : s.1.whitelist = defaultMainnet
  past : ∀ c ∈ s.2, c.2 ≤ now
  counted : ∀ token timestamp, now ≤ timestamp →
    (bridgedToday s.1.dailyTracker token timestamp).toNat = usedOn s.2 token (dayOf timestamp)
  limited : ∀ token t, defaultMainnet.lookup token = some t → ∀ day,
    usedOn s.2 token day ≤ t.dailyLimit.toNat
  bounded : ∀ c ∈ s.2, ∃ t, defaultMainnet.lookup c.1.token = some t ∧ c.1.amount ≤ t.maxPerTx

theorem Metered.usedOn_eq_zero (h : Metered now s) (token : Address) {day : UInt64}
    (hday : dayOf now < day) : usedOn s.2 token day = 0 := by
  unfold usedOn
  rw [filter_eq_nil_iff.mpr]
  · rfl
  intro c hc
  have hle := dayOf_mono (h.past c hc)
  simp only [decide_eq_true_eq, not_and]
  rintro - rfl
  exact absurd hday (UInt64.not_lt.mpr hle)

theorem Metered.later (h : Metered now s) {now' : UInt64} (hnow : now ≤ now') : Metered now' s :=
  { h with
    past := fun c hc => UInt64.le_trans (h.past c hc) hnow
    counted := fun token timestamp hle => h.counted token timestamp (UInt64.le_trans hnow hle) }

theorem Metered.take (h : Metered c.2 s) : Metered c.2 (take s c) := by
  unfold BridgeRelayer.take
  cases hsubmit : s.1.submit c.1 c.2 with
  | error e => exact h
  | ok result =>
    obtain ⟨⟨t, ht, hmax, hlimit⟩, -, hresult⟩ := submit_ok hsubmit
    rw [h.whitelist] at ht
    have hsum : (bridgedToday s.1.dailyTracker c.1.token c.2 + c.1.amount).toNat =
        c.1.amount.toNat + usedOn s.2 c.1.token (dayOf c.2) := by
      have hbound := lookup_defaultMainnet ht
      have hbefore := h.limited c.1.token t ht (dayOf c.2)
      have hamount := BitVec.le_def.mp hmax
      rw [BitVec.toNat_add, h.counted c.1.token c.2 UInt64.le_rfl, Nat.mod_eq_of_lt (by omega),
        Nat.add_comm]
    dsimp only
    rw [hresult]
    refine ⟨h.whitelist, forall_mem_cons.mpr ⟨UInt64.le_rfl, h.past⟩, ?_, ?_,
      forall_mem_cons.mpr ⟨⟨t, ht, hmax⟩, h.bounded⟩⟩
    · intro token timestamp hle
      rw [usedOn_cons, bridgedToday_record]
      by_cases htoken : token = c.1.token
      · subst htoken
        by_cases hday : dayOf c.2 = dayOf timestamp
        · simp only [hday, if_true, and_self]
          rw [hsum, hday]
        · have hnone := h.usedOn_eq_zero c.1.token (UInt64.lt_of_le_of_ne (dayOf_mono hle) hday)
          simp [hday, hnone]
      · simp [htoken, Ne.symm htoken, h.counted token timestamp hle]
    · intro token t' ht' day
      rw [usedOn_cons]
      split
      · next heq =>
        obtain ⟨rfl, rfl⟩ := heq
        cases ht.symm.trans ht'
        rw [← hsum]
        exact BitVec.le_def.mp hlimit
      · rw [Nat.zero_add]
        exact h.limited token t' ht' day

theorem metered_run (hwhitelist : r.whitelist = defaultMainnet) (htracker : r.dailyTracker = ∅)
    (calls : List Submission) (horder : (calls.map Prod.snd).Pairwise (· ≤ ·))
    (hnow : ∀ c ∈ calls, c.2 ≤ now) : Metered now (calls.foldl take (r, [])) := by
  induction calls using reverseRecOn generalizing now with
  | nil =>
    refine ⟨hwhitelist, by simp, ?_, fun _ _ _ _ => Nat.zero_le _, by simp⟩
    intro token timestamp _
    simp [htracker, bridgedToday, usedOn]
  | append_singleton calls c ih =>
    rw [map_append, pairwise_append] at horder
    rw [foldl_append]
    have hbefore : ∀ c' ∈ calls, c'.2 ≤ c.2 := fun c' hc' =>
      horder.2.2 _ (mem_map_of_mem hc') _ (by simp)
    exact (ih horder.1 hbefore).take.later (hnow c (by simp))

/-- **The limits hold.** With the tokens of the mainnet, what is accepted of a token on a day is
at most its daily limit, and each amount at most what a transaction may carry. What counts
against the limit is what was accepted, and nothing else. -/
theorem daily_limits_hold (hwhitelist : r.whitelist = defaultMainnet)
    (htracker : r.dailyTracker = ∅) (calls : List Submission)
    (horder : (calls.map Prod.snd).Pairwise (· ≤ ·)) :
    (∀ token t, defaultMainnet.lookup token = some t → ∀ day,
        usedOn (calls.foldl take (r, [])).2 token day ≤ t.dailyLimit.toNat) ∧
      (∀ c ∈ (calls.foldl take (r, [])).2,
        ∃ t, defaultMainnet.lookup c.1.token = some t ∧ c.1.amount ≤ t.maxPerTx) ∧
      ∀ token timestamp, (∀ c ∈ calls, c.2 ≤ timestamp) →
        (bridgedToday (calls.foldl take (r, [])).1.dailyTracker token timestamp).toNat =
          usedOn (calls.foldl take (r, [])).2 token (dayOf timestamp) := by
  have hrun : Metered (-1) _ := metered_run hwhitelist htracker calls horder fun c _ =>
    UInt64.le_iff_toNat_le.mpr (Nat.le_of_lt_succ c.2.toNat_lt)
  refine ⟨hrun.limited, hrun.bounded, ?_⟩
  intro token timestamp hall
  exact (metered_run hwhitelist htracker calls horder hall).counted token timestamp UInt64.le_rfl

def submittedTwice : List Submission := [(sampleRequest 1 0xb1, 1000), (sampleRequest 1 0xb1, 1001)]

theorem submitted_twice_counts_once :
    usedOn (submittedTwice.foldl take (sampleRelayer, [])).2 nativeZbxSentinel 0 = 500 ∧
      usedOn (submittedTwice.foldl take (sampleRelayer, [])).2 nativeZbxSentinel 0 ≤
        10000000000000000000000000 :=
  ⟨by decide +kernel, (daily_limits_hold rfl rfl submittedTwice (by decide)).1 nativeZbxSentinel
    .nativeZbx rfl 0⟩

end ZbxChain.Bridge
