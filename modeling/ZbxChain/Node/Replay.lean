import ZbxChain.Node.Issuance

/-!
# Replays

A transaction is accepted with the nonce of its sender only, and leaves a greater one. Within a
block only a deletion takes a nonce back.
-/

namespace ZbxChain

open ZvmStateAccess StateView

variable {E : Engines} {tx : SignedTransaction} {header : BlockHeader} {target : CallTarget}
  {view view' : StateView} {s : Address} {db : ZbxDb} {st st' : BlockState}

/-! ## Steps that delete nothing -/

theorem writes_credit (view : StateView) (addr : Address) (amount : Nat) :
    Writes view (credit view addr amount) := .account addr _ .refl

theorem writes_resolveTarget (tx : SignedTransaction) (view : StateView) :
    Writes view (resolveTarget tx view).2 := by
  unfold resolveTarget
  split
  · dsimp only
    unfold deployCode
    split
    · exact .refl
    · exact .account _ _ (.code _ _ .refl)
  · dsimp only
    split <;> exact .refl

theorem writes_settleValue (tx : SignedTransaction) (target : CallTarget) (success : Bool)
    (view : StateView) : Writes view (settleValue tx target success view) := by
  unfold settleValue finalizeCreate
  split
  · split
    · exact writes_credit _ _ _
    · split
      · exact .refl
      · exact .account _ _ .refl
    · exact .refl
  · exact writes_credit _ _ _

theorem writes_settleStakingValue (tx : SignedTransaction) (success : Bool) (view : StateView) :
    Writes view (settleStakingValue tx success view) := by
  unfold settleStakingValue
  split_ifs
  · exact writes_credit _ _ _
  · exact .refl
  · exact writes_credit _ _ _

theorem AtMostPaid.writes {recipient : Address} (h : AtMostPaid recipient view view') :
    Writes view view' := by
  rcases h with rfl | ⟨amount, -, rfl⟩
  · exact .refl
  · exact (Writes.account _ _ .refl).trans (writes_credit _ _ _)

/-! ## Nonces within a block -/

theorem getAccount_drainDestructs {created : Finset Address} {pending : List (Address × Address)}
    (h : ∀ d ∈ deletions created pending view, d.addr ≠ s) :
    (drainDestructs created pending view).getAccount s = view.getAccount s := by
  induction pending generalizing view with
  | nil => rfl
  | cons d rest ih =>
    unfold deletions at h
    unfold drainDestructs
    rw [List.foldl_cons]
    split at h
    next hmem =>
      rw [if_pos hmem, ← getAccount_selfdestruct_ne view (h _ List.mem_cons_self).symm]
      exact ih fun d' hd' => h d' (List.mem_cons_of_mem _ hd')
    next hmem =>
      rw [if_neg hmem]
      exact ih h

theorem nonce_le_runTarget {outcome : Outcome}
    (h : ∀ d ∈ targetDeletions E tx header target view, d.addr ≠ s)
    (hrun : runTarget E tx header target view = .ok (outcome, view')) :
    (view.getAccount s).nonce ≤ (view'.getAccount s).nonce := by
  unfold targetDeletions zvmDeletions at h
  unfold runTarget runZvm at hrun
  have hwrites := ((txHost header target view).run_writes
    (Zvm.interpret E.zvm (zvmContext tx header target))).nonce_le s
  rw [txHost_state] at hwrites
  split_ifs at hrun h
  · cases hrun
    exact UInt64.le_refl _
  · cases hrun
    exact UInt64.le_refl _
  · split at hrun
    · cases hrun
    next result host heq =>
    rw [heq] at h hwrites
    cases hrun
    refine UInt64.le_trans hwrites ?_
    show _ ≤ ((if result.status = .success then _ else _ : StateView).getAccount s).nonce
    dsimp only at h
    split at h
    next hsuccess =>
      rw [if_pos hsuccess, getAccount_drainDestructs h]
      exact UInt64.le_refl _
    next hfailed =>
      rw [if_neg hfailed]
      exact UInt64.le_refl _
  · cases hrun
    exact UInt64.le_refl _

/-- The transactions of `s` are in the order of their nonces, which are from `first` on and
below `last`. -/
structure Spends (s : Address) (first last : UInt64) (txs : List SignedTransaction) : Prop where
  ordered : txs.Pairwise fun tx tx' => tx.sender = s → tx'.sender = s → tx.tx.nonce < tx'.tx.nonce
  le : first ≤ last
  within : ∀ tx ∈ txs, tx.sender = s → first ≤ tx.tx.nonce ∧ tx.tx.nonce < last

theorem spends_nil {first last : UInt64} (h : first ≤ last) : Spends s first last [] :=
  ⟨.nil, h, nofun⟩

theorem Spends.append {first mid last : UInt64} {txs txs' : List SignedTransaction}
    (h : Spends s first mid txs) (h' : Spends s mid last txs') :
    Spends s first last (txs ++ txs') where
  ordered := List.pairwise_append.mpr ⟨h.ordered, h'.ordered, fun tx htx tx' htx' hs hs' =>
    UInt64.lt_of_lt_of_le (h.within tx htx hs).2 (h'.within tx' htx' hs').1⟩
  le := UInt64.le_trans h.le h'.le
  within tx htx hs := by
    rcases List.mem_append.mp htx with htx | htx
    · exact ⟨(h.within tx htx hs).1, UInt64.lt_of_lt_of_le (h.within tx htx hs).2 h'.le⟩
    · exact ⟨UInt64.le_trans h.le (h'.within tx htx hs).1, (h'.within tx htx hs).2⟩

theorem Spends.up {first mid last : UInt64} {txs : List SignedTransaction}
    (h : Spends s first mid txs) (hle : mid ≤ last) : Spends s first last txs :=
  List.append_nil txs ▸ h.append (spends_nil hle)

theorem spends_preflight (s : Address) (h : preflight tx view = .ok view') :
    Spends s (view.getAccount s).nonce (view'.getAccount s).nonce [tx] := by
  have spec := preflight_ok h
  rw [spec.debited]
  refine ⟨List.pairwise_singleton _ _, nonce_le_setAccount _ _ _ _,
    List.forall_mem_singleton.mpr ?_⟩
  rintro rfl
  refine ⟨spec.nonce_eq ▸ UInt64.le_refl _, ?_⟩
  rw [getAccount_setAccount_self]
  refine UInt64.lt_of_lt_of_le ?_ (guardAccount_nonce_ge _ _)
  have hlt := spec.nonce_lt
  dsimp only
  rw [spec.nonce_eq, UInt64.lt_iff_toNat_lt, UInt64.toNat_add, UInt64.toNat_one]
  omega

theorem spends_executeOne (hone : executeOne E header db st tx = .ok st')
    (h : isStakingRound tx st = false → ∀ d ∈ txDeletions E tx header st.view, d.addr ≠ s) :
    Spends s (st.view.getAccount s).nonce (st'.view.getAccount s).nonce [tx] := by
  obtain ⟨result, view, hrun, hview⟩ := executeOne_ok hone
  rw [hview]
  refine Spends.up ?_ ((writes_credit view _ _).nonce_le s)
  rcases hrun with ⟨hround, ⟨run⟩⟩ | ⟨-, ⟨run⟩⟩
  · obtain ⟨debited, outcome, ran, hpre, hrun, -, -, -, rfl⟩ := run
    have hkept := h hround
    unfold txDeletions at hkept
    rw [hpre] at hkept
    exact (((spends_preflight s hpre).up ((writes_resolveTarget tx debited).nonce_le s)).up
      (nonce_le_runTarget hkept hrun)).up
        (((writes_credit _ _ _).trans (writes_settleValue _ _ _ _)).nonce_le s)
  · obtain ⟨debited, used, paid, hpre, hpaid, -, -, rfl⟩ := run
    exact (spends_preflight s hpre).up (((hpaid.writes.trans (writes_credit _ _ _)).trans
      (writes_settleStakingValue _ _ _)).nonce_le s)

theorem spends_executeTxs {txs : List SignedTransaction}
    (h : ∀ d ∈ blockDeletions E header db st txs, d.addr ≠ s)
    (htxs : executeTxs E header db st txs = .ok st') :
    Spends s (st.view.getAccount s).nonce (st'.view.getAccount s).nonce txs := by
  induction txs generalizing st with
  | nil =>
    cases htxs
    exact spends_nil (UInt64.le_refl _)
  | cons tx rest ih =>
    obtain ⟨mid, hone, hrest⟩ := bind_eq_ok.mp htxs
    have hfirst := spends_executeOne hone fun hround d hd => h d (mem_seenInBlock_first hround hd)
    exact hfirst.append (ih (fun d hd => h d (mem_seenInBlock_rest hone hd)) hrest)

/-! ## Nonces from block to block -/

namespace BlockProducer

/-- The block neither deletes `s` nor writes it without having loaded it. -/
structure Keeps (E : Engines) (db : ZbxDb) (vs : Option ValidatorSet) (s : Address)
    (block : Block) : Prop where
  kept : ∀ d ∈ blockDeletions E block.header db (.start (seededView db block) vs)
    block.transactions, d.addr ≠ s
  loaded : s ∈ (seeding db block).seen ∨ ∀ st, executeBody E block db vs (seededView db block) =
    .ok st → st.view.diffs.accounts.lookup s = none

theorem spends_commit {vs : Option ValidatorSet} {block : Block} {c : Committed}
    (h : executeAndCommit E db vs block = .ok c) (hkeeps : Keeps E db vs s block) :
    Spends s (db.getAccount s).nonce (c.db.getAccount s).nonce block.transactions := by
  obtain ⟨st, hst⟩ := executeAndCommit_ok h
  obtain ⟨st', htxs, heq⟩ := executeBody_ok hst.body
  have hreward : Writes st'.view st.view := by
    rw [heq]
    dsimp only [payReward]
    split
    · exact writes_credit _ _ _
    · exact .refl
  have hspends : Spends s ((seededView db block).getAccount s).nonce
      (st.view.getAccount s).nonce block.transactions :=
    (spends_executeTxs hkeeps.kept htxs).up (hreward.nonce_le s)
  rw [hst.getAccount]
  cases hrecord : st.view.diffs.accounts.lookup s with
  | some acct =>
    have hseen : s ∈ (seeding db block).seen := hkeeps.loaded.resolve_right fun hnone => by
      rw [hnone st hst.body] at hrecord
      cases hrecord
    rwa [getAccount_seededView hseen, getAccount_of_lookup hst.tidy hrecord] at hspends
  | none =>
    -- what is not written reads as it was loaded, or as a fresh account
    have hread : (st.view.getAccount s).nonce ≤ (db.getAccount s).nonce := by
      unfold StateView.getAccount record
      rw [hrecord, (executeBody_reaches hst.body).base_eq]
      split
      · exact UInt64.zero_le
      cases hbase : (seededView db block).base.lookup s with
      | none => exact UInt64.zero_le
      | some acct =>
        rw [seededFrom_seededView db block s acct hbase]
        exact UInt64.le_refl _
    refine ⟨hspends.ordered, UInt64.le_refl _, fun tx htx hs => ?_⟩
    have hwithin := hspends.within tx htx hs
    rw [getAccount_seededView (mem_seen_of_mem htx (.inl hs))] at hwithin
    exact ⟨hwithin.1, UInt64.lt_of_lt_of_le hwithin.2 hread⟩

/-- Blocks that are committed one after the other and keep the nonce of `s`. -/
inductive Chain (E : Engines) (s : Address) : ZbxDb → List Block → Prop
  | nil (db : ZbxDb) : Chain E s db []
  | cons {db : ZbxDb} {vs : Option ValidatorSet} {block : Block} {c : Committed}
    {blocks : List Block} (h : executeAndCommit E db vs block = .ok c)
    (hkeeps : Keeps E db vs s block) (hrest : Chain E s c.db blocks) : Chain E s db (block :: blocks)

/-- **No replays.** The nonces of a sender go up from transaction to transaction, within a block
and from one to the next. -/
theorem no_replay (E : Engines) (s : Address) (db : ZbxDb) (blocks : List Block)
    (h : Chain E s db blocks) : (blocks.flatMap (·.transactions)).Pairwise fun tx tx' =>
      tx.sender = s → tx'.sender = s → tx.tx.nonce < tx'.tx.nonce := by
  obtain ⟨last, hlast⟩ : ∃ last, Spends s (db.getAccount s).nonce last
      (blocks.flatMap (·.transactions)) := by
    induction h with
    | nil db => exact ⟨_, spends_nil (UInt64.le_refl _)⟩
    | cons h hkeeps _ ih =>
      obtain ⟨last, hlast⟩ := ih
      exact ⟨last, (spends_commit h hkeeps).append hlast⟩
  exact hlast.ordered

def paymentAt (number nonce : UInt64) : Block :=
  ⟨{ (Block.first []).header with number }, [.basic 0xa1 nonce (some 0xb1) 5 []]⟩

theorem payments_in_order : Chain .idle 0xa1 fundedDb [paymentAt 1 0, paymentAt 2 1] ∧
    ([paymentAt 1 0, paymentAt 2 1].flatMap (·.transactions)).Pairwise fun tx tx' =>
      tx.sender = 0xa1 → tx'.sender = 0xa1 → tx.tx.nonce < tx'.tx.nonce := by
  obtain ⟨c, hc, ⟨c', hc', -⟩, hkept, hseen⟩ : ∃ c,
      executeAndCommit .idle fundedDb none (paymentAt 1 0) = .ok c ∧
      (∃ c', executeAndCommit .idle c.db none (paymentAt 2 1) = .ok c' ∧ c'.vs.isNone = true) ∧
      (∀ d ∈ blockDeletions .idle (paymentAt 2 1).header c.db
        (.start (seededView c.db (paymentAt 2 1)) none) (paymentAt 2 1).transactions,
          d.addr ≠ 0xa1) ∧ 0xa1 ∈ (seeding c.db (paymentAt 2 1)).seen := by decide +kernel
  have hchain : Chain .idle 0xa1 fundedDb [paymentAt 1 0, paymentAt 2 1] :=
    .cons hc ⟨by decide +kernel, .inl (by decide +kernel)⟩
      (.cons hc' ⟨hkept, .inl hseen⟩ (.nil c'.db))
  exact ⟨hchain, no_replay .idle 0xa1 fundedDb _ hchain⟩

end BlockProducer

end ZbxChain
