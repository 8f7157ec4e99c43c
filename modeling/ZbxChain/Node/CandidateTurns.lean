import Mathlib.Data.BitVec
import ZbxChain.Execution.Turns
import ZbxChain.Mempool.InStep
import ZbxChain.Node.Candidate

/-!
# Does a candidate execute?

`build_candidate` sorts the selected transactions with a comparison that looks at nonces within
one sender and calls transactions of two senders equal. Selection passes over what no longer
fits, whatever the nonce.
-/

namespace ZbxChain

open ZvmStateAccess PoolNode List Mempool TransactionPool

/-! ## Selection -/

namespace TransactionPool

theorem foldl_select_sublist (gasLimit : UInt64) (slots : List PendingSlot)
    (acc : List SignedTransaction × UInt64) : ∃ chosen : List PendingSlot, chosen.Sublist slots ∧
      (slots.foldl (select gasLimit) acc).1 = acc.1 ++ chosen.map (·.tx) := by
  induction slots generalizing acc with
  | nil => exact ⟨[], Sublist.refl [], (append_nil _).symm⟩
  | cons slot rest ih =>
    obtain ⟨chosen, hsub, heq⟩ := ih (select gasLimit acc slot)
    rw [foldl_cons, heq]
    unfold select
    dsimp only
    split
    · exact ⟨chosen, hsub.cons slot, rfl⟩
    · refine ⟨slot :: chosen, hsub.cons_cons slot, ?_⟩
      rw [append_assoc, singleton_append, map_cons]

theorem selectTransactions_subperm (pool : TransactionPool) (gasLimit : UInt64) :
    (pool.selectTransactions gasLimit).Subperm (pool.pending.map (·.tx)) := by
  obtain ⟨chosen, hsub, heq⟩ := foldl_select_sublist gasLimit
    (pool.pending.insertionSort fun a b => b.priority ≤ a.priority) ([], 0)
  have hselected : pool.selectTransactions gasLimit = chosen.map (·.tx) := heq
  rw [hselected]
  exact (hsub.map _).subperm.trans ((perm_insertionSort _ _).map _).subperm

variable {gasLimit : UInt64}

theorem foldl_select_all (slots : List PendingSlot) (acc : List SignedTransaction × UInt64)
    (hsum : acc.2.toNat + gasLimits (slots.map (·.tx)) ≤ gasLimit.toNat) :
    (slots.foldl (select gasLimit) acc).1 = acc.1 ++ slots.map (·.tx) := by
  induction slots generalizing acc with
  | nil => exact (append_nil _).symm
  | cons slot rest ih =>
    have hcons : gasLimits ((slot :: rest).map (·.tx)) =
        slot.tx.tx.gasLimit.toNat + gasLimits (rest.map (·.tx)) := rfl
    have hlimit := gasLimit.toNat_lt
    have hadd : (acc.2 + slot.tx.tx.gasLimit).toNat = acc.2.toNat + slot.tx.tx.gasLimit.toNat := by
      rw [UInt64.toNat_add]
      exact Nat.mod_eq_of_lt (by omega)
    have hfits : ¬ gasLimit < acc.2 + slot.tx.tx.gasLimit := by
      rw [UInt64.lt_iff_toNat_lt, hadd]
      omega
    have hselect : select gasLimit acc slot =
        (acc.1 ++ [slot.tx], acc.2 + slot.tx.tx.gasLimit) := if_neg hfits
    rw [foldl_cons, hselect, ih _ (by dsimp only; omega), append_assoc,
      singleton_append, map_cons]

theorem selectTransactions_perm (pool : TransactionPool)
    (hfits : gasLimits (pool.pending.map (·.tx)) ≤ gasLimit.toNat) :
    (pool.selectTransactions gasLimit).Perm (pool.pending.map (·.tx)) := by
  have hperm := (perm_insertionSort (fun a b : PendingSlot => b.priority ≤ a.priority)
    pool.pending).map (·.tx)
  rw [← BlockProducer.gasLimits_perm hperm] at hfits
  have hall := foldl_select_all (pool.pending.insertionSort fun a b => b.priority ≤ a.priority)
    ([], 0) ((Nat.zero_add _).le.trans hfits)
  exact (Perm.of_eq hall).trans hperm

end TransactionPool

/-! ## The pending transactions of a pool in step -/

namespace Mempool

def Iterates (pool : Mempool) (view : TransactionPool) : Prop := view.pending.Perm pool.slots

def pendingTxs (pool : Mempool) : List SignedTransaction := pool.slots.map (·.tx)

end Mempool

namespace PoolNode

variable {node : PoolNode} {txs : List SignedTransaction} {tx : SignedTransaction}

theorem InStep.filed (h : node.InStep) {e : (_ : PoolKey) × PendingSlot}
    (he : e ∈ node.pool.pending.entries) : Filed e.1 e.2.tx :=
  (h e.1.1).pending e.1.2 e.2 (AList.mem_lookup_iff.mpr he)

theorem InStep.exists_slot (h : node.InStep) (htx : tx ∈ node.pool.pendingTxs) :
    ∃ slot, node.pool.pending.lookup (tx.sender, tx.tx.nonce) = some slot ∧ slot.tx = tx ∧
      Filed (tx.sender, tx.tx.nonce) tx := by
  unfold pendingTxs slots at htx
  rw [map_map] at htx
  obtain ⟨e, he, rfl⟩ := mem_map.mp htx
  have hfiled := h.filed he
  have hkey : e.1 = (e.2.tx.sender, e.2.tx.tx.nonce) :=
    Prod.ext hfiled.sender.symm hfiled.nonce.symm
  refine ⟨e.2, ?_, rfl, ?_⟩
  · show node.pool.pending.lookup (e.2.tx.sender, e.2.tx.tx.nonce) = _
    rw [← hkey]
    exact AList.mem_lookup_iff.mpr he
  · show Filed (e.2.tx.sender, e.2.tx.tx.nonce) e.2.tx
    rwa [← hkey]

theorem exists_pendingTx {key : PoolKey} {slot : PendingSlot}
    (h : node.pool.pending.lookup key = some slot) : slot.tx ∈ node.pool.pendingTxs :=
  mem_map_of_mem (mem_map_of_mem (f := fun e : (_ : PoolKey) × PendingSlot => e.2)
    (AList.mem_lookup_iff.mp h))

theorem InStep.nodup (h : node.InStep) :
    (node.pool.pendingTxs.map fun tx => (tx.sender, tx.tx.nonce)).Nodup := by
  unfold pendingTxs slots
  rw [map_map, map_map]
  have hkeys : node.pool.pending.entries.map
      (((fun tx : SignedTransaction => (tx.sender, tx.tx.nonce)) ∘ fun slot : PendingSlot => slot.tx) ∘
        fun e : (_ : PoolKey) × PendingSlot => e.2) = node.pool.pending.keys := by
    refine map_congr_left fun e he => ?_
    have hfiled := h.filed he
    exact Prod.ext hfiled.sender hfiled.nonce
  rw [hkeys]
  exact node.pool.pending.keys_nodup

theorem InStep.nodup_nonces (h : node.InStep) (hsub : txs.Subperm node.pool.pendingTxs)
    (s : Address) : ((ofSender s txs).map fun tx => tx.tx.nonce).Nodup := by
  have hpart : (txs.map fun tx => (tx.sender, tx.tx.nonce)).Nodup := by
    obtain ⟨part, hperm, hpart⟩ := hsub
    exact (hperm.map _).nodup_iff.mp (h.nodup.sublist (hpart.map _))
  have hof : ((ofSender s txs).map fun tx => (tx.sender, tx.tx.nonce)).Nodup :=
    hpart.sublist (filter_sublist.map _)
  have hpairs : (ofSender s txs).map (fun tx => (tx.sender, tx.tx.nonce)) =
      ((ofSender s txs).map fun tx => tx.tx.nonce).map fun m => (s, m) := by
    rw [map_map]
    refine map_congr_left fun tx htx => ?_
    have hs := of_decide_eq_true (mem_filter.mp htx).2
    exact congrArg (·, tx.tx.nonce) hs
  rw [hpairs] at hof
  exact Nodup.of_map _ hof

theorem totalCost_le_slotCost (tx : Transaction) : totalCost tx ≤ slotCost tx := by
  unfold totalCost slotCost Transaction.valueU128 satAddU128
  split <;> omega

theorem InStep.costOf_le (h : node.InStep) (hsub : txs.Subperm node.pool.pendingTxs)
    (s : Address) : costOf s txs ≤ (node.db.getAccount s).balanceU128 := by
  have hnodup := h.nodup_nonces hsub s
  have hreserve : ∀ tx ∈ ofSender s txs, totalCost tx.tx ≤ node.pool.reserve (s, tx.tx.nonce) := by
    intro tx htx
    obtain ⟨hmem, hs⟩ := mem_filter.mp htx
    obtain ⟨slot, hslot, hslot_tx, -⟩ := h.exists_slot (hsub.subset hmem)
    rw [of_decide_eq_true hs] at hslot
    have hle := lookup_le_reserve_pending hslot
    rw [hslot_tx] at hle
    exact (totalCost_le_slotCost tx.tx).trans hle
  calc costOf s txs
      ≤ ((ofSender s txs).map fun tx => node.pool.reserve (s, tx.tx.nonce)).sum :=
        sum_le_sum hreserve
    _ = (((ofSender s txs).map fun tx => tx.tx.nonce).map fun m => node.pool.reserve (s, m)).sum := by
        rw [map_map]
        rfl
    _ = ∑ m ∈ ((ofSender s txs).map fun tx => tx.tx.nonce).toFinset, node.pool.reserve (s, m) :=
        (sum_toFinset _ hnodup).symm
    _ ≤ (node.db.getAccount s).balanceU128 := (h s).covered _

end PoolNode

/-! ## The order of nonces -/

def Mempool.OnePerSender (pool : Mempool) : Prop :=
  ∀ tx ∈ pool.pendingTxs, ∀ other ∈ pool.pendingTxs, tx.sender = other.sender → tx = other

def Mempool.OneSender (pool : Mempool) : Prop :=
  ∀ tx ∈ pool.pendingTxs, ∀ other ∈ pool.pendingTxs, tx.sender = other.sender

namespace PoolNode

variable {node : PoolNode} {txs : List SignedTransaction} {tx : SignedTransaction}

theorem mem_ofSender {s : Address} : tx ∈ ofSender s txs ↔ tx ∈ txs ∧ tx.sender = s := by
  unfold ofSender
  rw [mem_filter, decide_eq_true_eq]

theorem InStep.exists_first (h : node.InStep) (htx : tx ∈ node.pool.pendingTxs) :
    ∃ first ∈ node.pool.pendingTxs, first.sender = tx.sender ∧
      first.tx.nonce = (node.db.getAccount tx.sender).nonce := by
  obtain ⟨slot, hslot, -, -⟩ := h.exists_slot htx
  obtain ⟨count, hstretch⟩ := (h tx.sender).stretch
  have hrange := (hstretch.pending tx.tx.nonce).mp (Option.isSome_iff_exists.mpr ⟨slot, hslot⟩)
  have hfirst := (hstretch.pending (node.db.getAccount tx.sender).nonce).mpr (by omega)
  obtain ⟨first, hfirst⟩ := Option.isSome_iff_exists.mp hfirst
  have hfiled := (h tx.sender).pending _ first hfirst
  exact ⟨first.tx, exists_pendingTx hfirst, hfiled.sender, hfiled.nonce⟩

theorem InStep.consecutive_of_onePerSender (h : node.InStep)
    (hsub : txs.Subperm node.pool.pendingTxs) (hone : node.pool.OnePerSender) (s : Address) :
    Consecutive s (node.db.getAccount s).nonce.toNat txs := by
  have hnodup := h.nodup_nonces hsub s
  have hmem : ∀ tx ∈ ofSender s txs, tx ∈ node.pool.pendingTxs ∧ tx.sender = s := by
    intro tx htx
    obtain ⟨hmem, hs⟩ := mem_ofSender.mp htx
    exact ⟨hsub.subset hmem, hs⟩
  unfold Consecutive
  cases hof : ofSender s txs with
  | nil => rfl
  | cons tx rest =>
    rw [hof] at hnodup hmem
    obtain ⟨hpending, hs⟩ := hmem tx mem_cons_self
    cases rest with
    | nil =>
      obtain ⟨first, hfirst, hsender, hnonce⟩ := h.exists_first hpending
      have heq := hone first hfirst tx hpending hsender
      rw [heq, hs] at hnonce
      rw [map_cons, map_nil, hnonce]
      rfl
    | cons other rest =>
      obtain ⟨hother, hs'⟩ := hmem other (mem_cons_of_mem tx mem_cons_self)
      have heq := hone tx hpending other hother (hs.trans hs'.symm)
      rw [heq] at hnodup
      exact absurd mem_cons_self (nodup_cons.mp hnodup).1

theorem InStep.mem_nonces (h : node.InStep) (s : Address) :
    ∃ count, ∀ n, (∃ tx ∈ node.pool.pendingTxs, tx.sender = s ∧ tx.tx.nonce.toNat = n) ↔
      (node.db.getAccount s).nonce.toNat ≤ n ∧ n < (node.db.getAccount s).nonce.toNat + count := by
  obtain ⟨count, hstretch⟩ := (h s).stretch
  -- the largest nonce is never pending, so that the interval ends before it
  have hend : (node.db.getAccount s).nonce.toNat + count < 2 ^ 64 := by
    by_contra hge
    have hlt := (node.db.getAccount s).nonce.toNat_lt
    have hlast : (UInt64.ofNat (2 ^ 64 - 1)).toNat = 2 ^ 64 - 1 := by decide
    have hsome := (hstretch.pending (UInt64.ofNat (2 ^ 64 - 1))).mpr (by omega)
    obtain ⟨slot, hslot⟩ := Option.isSome_iff_exists.mp hsome
    have hfiled := (h s).pending _ slot hslot
    have hbound := hfiled.nonce_lt
    have hnonce : slot.tx.tx.nonce = UInt64.ofNat (2 ^ 64 - 1) := hfiled.nonce
    rw [hnonce] at hbound
    omega
  refine ⟨count, fun n => ⟨?_, ?_⟩⟩
  · rintro ⟨tx, htx, rfl, rfl⟩
    obtain ⟨slot, hslot, -, -⟩ := h.exists_slot htx
    exact (hstretch.pending tx.tx.nonce).mp (Option.isSome_iff_exists.mpr ⟨slot, hslot⟩)
  intro hn
  have hlt : n < 2 ^ 64 := by omega
  have hofNat : (UInt64.ofNat n).toNat = n := UInt64.toNat_ofNat_of_lt' hlt
  have hsome := (hstretch.pending (UInt64.ofNat n)).mpr (by omega)
  obtain ⟨slot, hslot⟩ := Option.isSome_iff_exists.mp hsome
  have hfiled := (h s).pending _ slot hslot
  refine ⟨slot.tx, exists_pendingTx hslot, hfiled.sender, ?_⟩
  have hnonce : slot.tx.tx.nonce = UInt64.ofNat n := hfiled.nonce
  rw [hnonce, hofNat]

theorem InStep.consecutive_of_oneSender (h : node.InStep) (hperm : txs.Perm node.pool.pendingTxs)
    (hone : node.pool.OneSender)
    (hsorted : (txs.map fun tx => tx.tx.nonce.toNat).Pairwise (· ≤ ·)) (s : Address) :
    Consecutive s (node.db.getAccount s).nonce.toNat txs := by
  unfold Consecutive
  cases hof : ofSender s txs with
  | nil => rfl
  | cons first rest =>
    have hfirst : first ∈ ofSender s txs := hof ▸ mem_cons_self
    obtain ⟨hmem, hs⟩ := mem_ofSender.mp hfirst
    -- all transactions are of this sender
    have hall : ofSender s txs = txs := by
      refine filter_eq_self.mpr fun tx htx => decide_eq_true ?_
      rw [← hs]
      exact hone tx (hperm.subset htx) first (hperm.subset hmem)
    rw [← hof, hall]
    obtain ⟨count, hnonces⟩ := h.mem_nonces s
    have hnodup := h.nodup_nonces hperm.subperm s
    rw [hall] at hnodup
    have hnodup' : (txs.map fun tx => tx.tx.nonce.toNat).Nodup := by
      have hmap := hnodup.map fun _ _ => UInt64.toNat_inj.mp
      rwa [map_map] at hmap
    have hrange : (txs.map fun tx => tx.tx.nonce.toNat).Perm
        (range' (node.db.getAccount s).nonce.toNat count) := by
      apply (perm_ext_iff_of_nodup hnodup' nodup_range').mpr
      intro n
      rw [mem_range'_1, ← hnonces n, mem_map]
      constructor
      · rintro ⟨tx, htx, rfl⟩
        exact ⟨tx, hperm.subset htx, (mem_ofSender.mp (hall ▸ htx)).2, rfl⟩
      · rintro ⟨tx, htx, -, rfl⟩
        exact ⟨tx, hperm.symm.subset htx, rfl⟩
    have hlength : txs.length = count := by
      have hlen := hrange.length_eq
      rwa [length_map, length_range'] at hlen
    rw [hlength]
    exact hrange.eq_of_pairwise' hsorted pairwise_le_range'

/-! ## Execution -/

open BlockProducer

theorem InStep.ready (h : node.InStep) {block : Block}
    (hsub : block.transactions.Subperm node.pool.pendingTxs)
    (hnonces : ∀ s, Consecutive s (node.db.getAccount s).nonce.toNat block.transactions)
    (hplain : ∀ tx ∈ node.pool.pendingTxs, Plain node.db.getAccount tx) :
    Ready (seededView node.db block) block.transactions := by
  have hsender : ∀ tx ∈ block.transactions,
      (seededView node.db block).getAccount tx.sender = node.db.getAccount tx.sender :=
    fun tx htx => getAccount_seededView (mem_seen_of_mem htx (.inl rfl))
  have hfiled : ∀ tx ∈ block.transactions, Filed (tx.sender, tx.tx.nonce) tx := by
    intro tx htx
    obtain ⟨slot, -, -, hfiled⟩ := h.exists_slot (hsub.subset htx)
    exact hfiled
  refine ⟨?_, ?_, ?_, ?_, ?_⟩
  · intro s
    by_cases hs : ∃ tx ∈ block.transactions, tx.sender = s
    · obtain ⟨tx, htx, rfl⟩ := hs
      rw [hsender tx htx]
      exact hnonces tx.sender
    have hnone : ofSender s block.transactions = [] := by
      refine filter_eq_nil_iff.mpr fun tx htx hdec => hs ⟨tx, htx, ?_⟩
      exact of_decide_eq_true hdec
    unfold Consecutive
    rw [hnone]
    rfl
  · intro tx htx
    show _ ≤ ((seededView node.db block).getAccount tx.sender).balanceU128
    rw [hsender tx htx]
    exact h.costOf_le hsub tx.sender
  · exact fun tx htx => (hfiled tx htx).gas_le
  · exact fun tx htx => (hfiled tx htx).nonce_lt
  · intro tx htx
    refine (hplain tx (hsub.subset htx)).of_vm fun dest hdest => ?_
    rw [getAccount_seededView (mem_seen_of_mem htx (.inr hdest))]

end PoolNode

namespace BlockProducer

variable {header : BlockHeader} {E : Engines} {db : ZbxDb}

theorem executeTxs_append (pre post : List SignedTransaction) (st : BlockState) :
    executeTxs E header db st (pre ++ post) =
      (do
        let mid ← executeTxs E header db st pre
        executeTxs E header db mid post) := by
  induction pre generalizing st with
  | nil => rfl
  | cons tx rest ih =>
    rw [cons_append, executeTxs, executeTxs, bind_assoc]
    exact bind_congr fun mid => ih mid

/-- The executor accepts the block: the nonces of each sender are consecutive from the stored
one, and each transaction is affordable when its turn comes. -/
structure Executes (E : Engines) (db : ZbxDb) (vs : Option ValidatorSet) (block : Block) : Prop where
  consecutive : ∀ s, Consecutive s (db.getAccount s).nonce.toNat block.transactions
  affordable : ∀ pre tx post st, block.transactions = pre ++ tx :: post →
    executeTxs E block.header db (.start (seededView db block) vs) pre = .ok st →
    totalCost tx.tx ≤ balanceOf st.view tx.sender
  accepted : ∃ st, executeBody E block db vs (seededView db block) = .ok st

theorem totalCost_le_of_executeTxs {pre post : List SignedTransaction} {tx : SignedTransaction}
    {st mid st' : BlockState} (h : executeTxs E header db st (pre ++ tx :: post) = .ok st')
    (hpre : executeTxs E header db st pre = .ok mid) :
    totalCost tx.tx ≤ balanceOf mid.view tx.sender := by
  rw [executeTxs_append, hpre, ok_bind] at h
  obtain ⟨next, hone, -⟩ := bind_eq_ok.mp h
  obtain ⟨result, view, ⟨-, ⟨run⟩⟩ | ⟨-, ⟨run⟩⟩, -⟩ := executeOne_ok hone
  · exact (preflight_ok run.preflight_eq).cost_le
  · exact (preflight_ok run.preflight_eq).cost_le

theorem executes_of_ready (E : Engines) (vs : Option ValidatorSet) {block : Block}
    (hlimit : block.header.gasLimit.toNat ≤ blockGasLimit)
    (hnonces : ∀ s, Consecutive s (db.getAccount s).nonce.toNat block.transactions)
    (hready : Ready (seededView db block) block.transactions) : Executes E db vs block := by
  have hstart : Ready (BlockState.start (seededView db block) vs).view block.transactions := hready
  obtain ⟨st, hrun⟩ := hstart.executes E block.header db
  refine ⟨hnonces, ?_, ?_⟩
  · intro pre tx post mid hsplit hpre
    rw [hsplit] at hrun
    exact totalCost_le_of_executeTxs hrun hpre
  unfold executeBody
  rw [if_neg (Nat.not_lt.mpr hlimit), hrun]
  exact ⟨_, rfl⟩

/-! ## Sorting -/

/-- The comparison does not put `a` after `b`. -/
def NonceLe (a b : SignedTransaction) : Prop := a.sender = b.sender → a.tx.nonce ≤ b.tx.nonce

instance : DecidableRel NonceLe := fun _ _ => inferInstanceAs (Decidable (_ → _))

/-- What `sort_by` promises: a stable sort, when the comparison is an order on the list. -/
def NonceSort.Lawful (sort : NonceSort) : Prop :=
  ∀ txs, (∀ a ∈ txs, ∀ b ∈ txs, ∀ c ∈ txs, NonceLe a b → NonceLe b c → NonceLe a c) →
    sort.run txs = txs.insertionSort NonceLe

theorem NonceSort.Lawful.nonces_sorted {sort : NonceSort} (h : sort.Lawful)
    {txs : List SignedTransaction} (hone : ∀ a ∈ txs, ∀ b ∈ txs, a.sender = b.sender) :
    ((sort.run txs).map fun tx => tx.tx.nonce.toNat).Pairwise (· ≤ ·) := by
  have hle : ∀ a ∈ txs, ∀ b ∈ txs, NonceLe a b ↔ a.tx.nonce.toNat ≤ b.tx.nonce.toNat := by
    intro a ha b hb
    rw [← UInt64.le_iff_toNat_le]
    exact ⟨fun hab => hab (hone a ha b hb), fun hab _ => hab⟩
  rw [h txs fun a ha b hb c hc hab hbc => (hle a ha c hc).mpr
    (((hle a ha b hb).mp hab).trans ((hle b hb c hc).mp hbc))]
  rw [map_insertionSort _ (· ≤ ·) _ _ hle]
  exact pairwise_insertionSort _ _

def pullFirst (txs : List SignedTransaction) (tx : SignedTransaction) (h : tx ∈ txs) :
    NonceSort where
  run l := if l = txs then tx :: txs.erase tx else l.insertionSort NonceLe
  perm l := by
    split
    · rename_i heq
      rw [heq]
      exact (perm_cons_erase h).symm
    · exact perm_insertionSort _ _

/-! ## Candidates -/

/-- Every block that is built from the pool executes, in whichever order the pool's map is read
and whatever else than a sort the sorting does to a list without an order. -/
def CandidatesExecute (E : Engines) (vs : Option ValidatorSet) (chain : ChainDb) (pool : Mempool)
    (cfg : ProducerConfig) (clock : Option UInt64) : Prop :=
  ∀ sort : NonceSort, sort.Lawful → ∀ view, pool.Iterates view → ∀ candidate,
    buildCandidate sort chain view cfg clock = .ok (some candidate) →
      Executes E chain.db vs candidate.toBlock

/-- No sender has two pending transactions, or there is one sender and all of them fit. -/
def Arranged (pool : Mempool) (gasLimit : UInt64) : Prop :=
  pool.OnePerSender ∨ (pool.OneSender ∧ gasLimits pool.pendingTxs ≤ gasLimit.toNat)

section

variable {node : PoolNode} {chain : ChainDb} {cfg : ProducerConfig} {clock : Option UInt64}
  {parent : SealedHeader}

variable (clock) in
theorem candidatesExecute_of_arranged (E : Engines) (vs : Option ValidatorSet)
    (hnode : node.InStep) (hchain : chain.db = node.db)
    (hparent : chain.headers.lookup (chain.db.getLatestBlockNumber.getD 0) = some parent)
    (hlimit : cfg.gasLimit.toNat ≤ blockGasLimit)
    (hplain : ∀ tx ∈ node.pool.pendingTxs, Plain node.db.getAccount tx)
    (h : Arranged node.pool cfg.gasLimit) : CandidatesExecute E vs chain node.pool cfg clock := by
  intro sort hsort view hview candidate hbuild
  have hcandidate := buildCandidate_some hparent hbuild
  subst hcandidate
  have hpending : (view.pending.map (·.tx)).Perm node.pool.pendingTxs := hview.map _
  have hsub : (sort.run (view.selectTransactions cfg.gasLimit)).Subperm node.pool.pendingTxs :=
    ((sort.perm _).subperm.trans (view.selectTransactions_subperm _)).trans hpending.subperm
  have hnonces : ∀ s, Consecutive s (node.db.getAccount s).nonce.toNat
      (sort.run (view.selectTransactions cfg.gasLimit)) := by
    rcases h with hone | ⟨hone, hfits⟩
    · exact hnode.consecutive_of_onePerSender hsub hone
    have hall : (view.selectTransactions cfg.gasLimit).Perm node.pool.pendingTxs := by
      refine (view.selectTransactions_perm ?_).trans hpending
      rwa [gasLimits_perm hpending]
    have hsender : ∀ a ∈ view.selectTransactions cfg.gasLimit,
        ∀ b ∈ view.selectTransactions cfg.gasLimit, a.sender = b.sender :=
      fun a ha b hb => hone a (hall.subset ha) b (hall.subset hb)
    exact hnode.consecutive_of_oneSender ((sort.perm _).trans hall) hone
      (hsort.nonces_sorted hsender)
  rw [hchain]
  apply executes_of_ready E vs hlimit hnonces
  exact InStep.ready hnode hsub hnonces hplain

variable {E : Engines} {vs : Option ValidatorSet} {tx : SignedTransaction}

theorem lawful_pullFirst {txs : List SignedTransaction} {low high other : SignedTransaction}
    (htx : tx ∈ txs) (hlow : low ∈ txs) (hhigh : high ∈ txs) (hother : other ∈ txs)
    (hsame : high.sender = low.sender) (hlt : ¬ high.tx.nonce ≤ low.tx.nonce)
    (hne : other.sender ≠ low.sender) : (pullFirst txs tx htx).Lawful := by
  intro l htrans
  show (if l = txs then _ else _) = _
  split
  · rename_i heq
    subst heq
    refine absurd (htrans high hhigh other hother low hlow ?_ ?_ hsame) hlt
    · exact fun heq => absurd (heq.symm.trans hsame) hne
    · exact fun heq => absurd heq hne
  · rfl

theorem nonce_eq_of_candidatesExecute {pool : Mempool}
    (hparent : chain.headers.lookup (chain.db.getLatestBlockNumber.getD 0) = some parent)
    (h : CandidatesExecute E vs chain pool cfg clock) {view : TransactionPool}
    (hview : pool.Iterates view) (htx : tx ∈ view.selectTransactions cfg.gasLimit)
    (hlawful : (pullFirst (view.selectTransactions cfg.gasLimit) tx htx).Lawful) :
    tx.tx.nonce.toNat = (chain.db.getAccount tx.sender).nonce.toNat := by
  have hbuild : buildCandidate (pullFirst (view.selectTransactions cfg.gasLimit) tx htx) chain view
      cfg clock = .ok (some ⟨candidateHeader parent cfg clock,
        tx :: (view.selectTransactions cfg.gasLimit).erase tx⟩) := by
    have hsome : (view.selectTransactions cfg.gasLimit).isEmpty = false :=
      isEmpty_eq_false_iff.mpr (ne_nil_of_mem htx)
    unfold buildCandidate
    dsimp only
    rw [hparent]
    rw [hsome]
    show Except.ok (some (SealedBlock.mk _ (if _ then _ else _))) = _
    rw [if_pos rfl]
  have hexec := h _ hlawful view hview _ hbuild
  exact (consecutive_cons_self.mp (hexec.consecutive tx.sender)).1

theorem arranged_of_candidatesExecute (hnode : node.InStep)
    (hparent : chain.headers.lookup (chain.db.getLatestBlockNumber.getD 0) = some parent)
    (hfits : gasLimits node.pool.pendingTxs ≤ cfg.gasLimit.toNat)
    (h : CandidatesExecute E vs chain node.pool cfg clock) : Arranged node.pool cfg.gasLimit := by
  by_cases hsender : node.pool.OneSender
  · exact .inr ⟨hsender, hfits⟩
  left
  intro a ha b hb hsame
  by_contra hab
  have hnonce : a.tx.nonce ≠ b.tx.nonce := by
    intro heq
    obtain ⟨slot, hslot, rfl, -⟩ := hnode.exists_slot ha
    obtain ⟨slot', hslot', rfl, -⟩ := hnode.exists_slot hb
    rw [hsame, heq, hslot'] at hslot
    exact hab (congrArg PendingSlot.tx (Option.some.inj hslot)).symm
  -- a pending transaction of another sender
  obtain ⟨other, hother, hne⟩ : ∃ other ∈ node.pool.pendingTxs, other.sender ≠ b.sender := by
    by_contra hnone
    push Not at hnone
    exact hsender fun c hc d hd => (hnone c hc).trans (hnone d hd).symm
  have hall : (selectTransactions ⟨node.pool.slots⟩ cfg.gasLimit).Perm
      node.pool.pendingTxs := selectTransactions_perm ⟨node.pool.slots⟩ hfits
  have hview : node.pool.Iterates ⟨node.pool.slots⟩ := Perm.refl _
  have hmem : ∀ {tx}, tx ∈ node.pool.pendingTxs →
      tx ∈ selectTransactions ⟨node.pool.slots⟩ cfg.gasLimit :=
    fun htx => hall.symm.subset htx
  -- both can come first, but only one of them has the stored nonce
  have hlawful : ∀ tx (htx : tx ∈ selectTransactions ⟨node.pool.slots⟩ cfg.gasLimit),
      (pullFirst _ tx htx).Lawful := by
    intro tx htx
    by_cases hle : a.tx.nonce ≤ b.tx.nonce
    · refine lawful_pullFirst htx (hmem ha) (hmem hb) (hmem hother) hsame.symm ?_ (hsame ▸ hne)
      exact fun hge => hnonce (UInt64.le_antisymm hle hge)
    · exact lawful_pullFirst htx (hmem hb) (hmem ha) (hmem hother) hsame hle hne
  have hfirst := nonce_eq_of_candidatesExecute hparent h hview (hmem ha) (hlawful a (hmem ha))
  have hsecond := nonce_eq_of_candidatesExecute hparent h hview (hmem hb) (hlawful b (hmem hb))
  rw [hsame] at hfirst
  exact hnonce (UInt64.toNat_inj.mp (hfirst.trans hsecond.symm))

end

/-- The blocks that are built after a regular run. They execute if no sender has two pending
transactions, or if one sender has all of them and they fit in a block; where all pending
transactions fit in a block, only then. -/
theorem candidates_execute_iff (E : Engines) (vs : Option ValidatorSet)
    (recover : H256 → Signature → Except String Address) (config : MempoolConfig) (db : ZbxDb)
    (events : List PoolEvent) (chain : ChainDb) (cfg : ProducerConfig) (clock : Option UInt64)
    {node : PoolNode} {parent : SealedHeader}
    (hrun : Meets (step recover) Regular (.start config db) events)
    (hnode : events.foldl (step recover) (.start config db) = node) (hchain : chain.db = node.db)
    (hparent : chain.headers.lookup (chain.db.getLatestBlockNumber.getD 0) = some parent)
    (hlimit : cfg.gasLimit.toNat ≤ blockGasLimit)
    (hplain : ∀ tx ∈ node.pool.pendingTxs, Plain node.db.getAccount tx) :
    (Arranged node.pool cfg.gasLimit → CandidatesExecute E vs chain node.pool cfg clock) ∧
    (gasLimits node.pool.pendingTxs ≤ cfg.gasLimit.toNat →
      (CandidatesExecute E vs chain node.pool cfg clock ↔ Arranged node.pool cfg.gasLimit)) := by
  have hstep : node.InStep := hnode ▸ inStep_of_meets hrun
  have hsufficient := candidatesExecute_of_arranged clock E vs hstep hchain hparent hlimit hplain
  exact ⟨hsufficient, fun hfits =>
    ⟨arranged_of_candidatesExecute hstep hparent hfits, hsufficient⟩⟩

/-! ## Two transactions of one sender -/

/-- A transfer of nothing by `0xa1` to `0xb2`, with its hash. -/
def emptyTransfer (nonce tip gasLimit : UInt64) : WireTransaction :=
  let t : WireTransaction := ⟨⟨⟨nonce, tip, 2000000000, gasLimit, some 0xb2, 0, [], [], 1⟩, .dynamicFee⟩,
    ⟨0, 0, 0⟩, 0xa1, 0⟩
  { t with hash := t.computeHash }

def recoverA1 : H256 → Signature → Except String Address := fun _ _ => .ok 0xa1

def richChain : ChainDb where
  db := (idleChain 7).db.putAccount 0xa1 { AccountState.default with balance := 10 ^ 18 }
  headers := (idleChain 7).headers

def stableSort : NonceSort := ⟨insertionSort NonceLe, perm_insertionSort _⟩

def admissions (gasLimit : UInt64) : List PoolEvent :=
  [.submit (emptyTransfer 1 2000000 gasLimit) (10 ^ 18) 0,
    .submit (emptyTransfer 0 1000000 21000) (10 ^ 18) 0]

def admitted (gasLimit : UInt64) : PoolNode :=
  (admissions gasLimit).foldl (step recoverA1) (.start .default richChain.db)

theorem regular_admissions (gasLimit : UInt64) :
    Meets (step recoverA1) Regular (.start .default richChain.db) (admissions gasLimit) := by
  have hstored : 10 ^ 18 = (richChain.db.getAccount 0xa1).balanceU128 ∧
      0 = (richChain.db.getAccount 0xa1).nonce ∧ 10 ^ 18 < 2 ^ 128 - 1 := by decide +kernel
  refine meets_cons.mpr ⟨⟨hstored.1, hstored.2.1, hstored.2.2, ?_⟩,
    meets_cons.mpr ⟨⟨hstored.1, hstored.2.1, hstored.2.2, ?_⟩, meets_nil⟩⟩
  · show (1 : UInt64).toNat + 1 < 2 ^ 64
    decide
  · decide

theorem pendingTxs_admitted : (admitted 21000).pool.pendingTxs =
    [(emptyTransfer 1 2000000 21000).toSigned, (emptyTransfer 0 1000000 21000).toSigned] := by
  decide +kernel

theorem arranged_admitted : Arranged (admitted 21000).pool idleConfig.gasLimit := by
  refine .inr ⟨?_, ?_⟩
  · intro tx htx other hother
    rw [pendingTxs_admitted] at htx hother
    simp only [mem_cons, not_mem_nil, or_false] at htx hother
    rcases htx with rfl | rfl <;> rcases hother with rfl | rfl <;> rfl
  · rw [pendingTxs_admitted]
    decide

/-- Two small transactions of one sender both execute, whichever offers more. -/
theorem two_transfers_execute : Meets (step recoverA1) Regular (.start .default richChain.db)
      (admissions 21000) ∧
    CandidatesExecute .idle none richChain (admitted 21000).pool idleConfig (some 2) := by
  have hparent : richChain.headers.lookup (richChain.db.getLatestBlockNumber.getD 0) =
      some (idleParent 7) := AList.lookup_insert _
  have hplain : ∀ tx ∈ (admitted 21000).pool.pendingTxs,
      Plain (admitted 21000).db.getAccount tx := by
    have hvm : (richChain.db.getAccount 0xb2).vm = .evm := by decide +kernel
    intro tx htx
    rw [pendingTxs_admitted] at htx
    simp only [mem_cons, not_mem_nil, or_false] at htx
    rcases htx with rfl | rfl
    all_goals
      refine ⟨nofun, ?_, by decide⟩
      rintro dest ⟨⟩
      exact hvm
  exact ⟨regular_admissions 21000, (candidates_execute_iff .idle none recoverA1 .default richChain.db
    (admissions 21000) richChain idleConfig (some 2) (regular_admissions 21000) rfl rfl hparent
    (by decide) hplain).1 arranged_admitted⟩

/-- The second transaction takes all the gas of a block and offers more. The first is passed
over, and the block with the second alone is refused. -/
theorem second_without_first : Meets (step recoverA1) Regular (.start .default richChain.db)
      (admissions 30000000) ∧ (admitted 30000000).db = richChain.db ∧ stableSort.Lawful ∧
    ∃ candidate, buildCandidate stableSort richChain ⟨(admitted 30000000).pool.slots⟩ idleConfig
        (some 2) = .ok (some candidate) ∧ executeBody .idle candidate.toBlock richChain.db none
        (seededView richChain.db candidate.toBlock) = .error (.err (.invalidNonce 0 1)) := by
  refine ⟨regular_admissions 30000000, rfl, (fun _ _ => rfl), ?_⟩
  obtain ⟨built, hbuilt, candidate, rfl, hfails⟩ : ∃ built, buildCandidate stableSort richChain
      ⟨(admitted 30000000).pool.slots⟩ idleConfig (some 2) = .ok built ∧
      ∃ candidate ∈ built, executeBody .idle candidate.toBlock richChain.db none
        (seededView richChain.db candidate.toBlock) = .error (.err (.invalidNonce 0 1)) := by
    decide +kernel
  exact ⟨candidate, hbuilt, hfails⟩

/-- After a regular run the pending nonces of a sender are those from the stored one on, each
of them once, and the stored balance pays for all of them. -/
theorem pending_follows_account (recover : H256 → Signature → Except String Address)
    (config : MempoolConfig) (db : ZbxDb) (events : List PoolEvent)
    (hrun : Meets (step recover) Regular (.start config db) events) (s : Address) :
    let node := events.foldl (step recover) (.start config db)
    let account := node.db.getAccount s
    (node.pool.pendingTxs.map fun tx => (tx.sender, tx.tx.nonce)).Nodup ∧
    (∃ count, ∀ m : UInt64, (node.pool.pending.lookup (s, m)).isSome ↔
      account.nonce.toNat ≤ m.toNat ∧ m.toNat < account.nonce.toNat + count) ∧
    costOf s node.pool.pendingTxs ≤ account.balanceU128 := by
  have hstep := inStep_of_meets hrun
  exact ⟨hstep.nodup, (hstep s).stretch.imp fun _ h => h.pending, hstep.costOf_le (.refl _) s⟩

theorem admitted_follows_account : Meets (step recoverA1) Regular (.start .default richChain.db)
      (admissions 21000) ∧ costOf 0xa1 (admitted 21000).pool.pendingTxs ≤ 10 ^ 18 :=
  ⟨regular_admissions 21000, (pending_follows_account recoverA1 .default richChain.db _
    (regular_admissions 21000) 0xa1).2.2⟩

end BlockProducer

end ZbxChain
