import ZbxChain.Node.Commit
import ZbxChain.State.AccountLeaves

/-!
# The committed state root

The root in a committed header is computed over the accounts that the block has loaded or
changed, in a fresh trie. It is the root over all stored accounts exactly when the block
has loaded or changed every account that is not empty, has deleted none of them, and has
left the storage root of each account as the account's record has it
(`committed_root_iff`).
-/

namespace ZbxChain.BlockProducer

open StateView Mpt MutableTrie Option AList

variable {E : Engines} {db : ZbxDb} {vs : Option ValidatorSet} {block : Block} {c : Committed}
  {st : BlockState}

/-- The account trie over everything in storage. A stored account has no dirty slots. -/
def storedStateTrie (db : ZbxDb) :
    EStateM.Result (Fault TrieError) (MutableTrie ZbxDbTrieAdapter) Unit :=
  stateTrieWithDb db.state ∅ (ZbxDbTrieAdapter.new db)

def storedStateRoot (db : ZbxDb) : TrieResult H256 :=
  computeStateRootWithDb db.state ∅ (ZbxDbTrieAdapter.new db)

def committedStateTrie (db : ZbxDb) (view : StateView) :
    EStateM.Result (Fault TrieError) (MutableTrie ZbxDbTrieAdapter) Unit :=
  stateTrieWithDb view.visible view.diffs.storage (ZbxDbTrieAdapter.new db)

structure CoversStorage (db : ZbxDb) (view : StateView) : Prop where
  /-- No account with a leaf is left unloaded, or deleted. -/
  loaded : ∀ addr acct, db.state.lookup addr = some acct → acct.isEmpty = false →
    view.visible.lookup addr ≠ none
  /-- Slots are only written where they leave the storage root of the record. -/
  slots : ∀ addr acct slots, view.visible.lookup addr = some acct →
    dirtySlots view.diffs.storage addr = some slots → acct.isEmpty = false ∧
      computeStorageRootWithDb slots acct.storageRoot (ZbxDbTrieAdapter.new db) =
        .ok acct.storageRoot

/-! ## The visible accounts -/

theorem lookup_addVisible {entries : List ((_ : Address) × AccountState)}
    (h : entries.NodupKeys) (toDelete : Finset Address) (m : Map Address AccountState)
    (addr : Address) : (addVisible toDelete m entries).lookup addr =
      if addr ∈ toDelete then m.lookup addr else (entries.dlookup addr).or (m.lookup addr) := by
  induction entries generalizing m with
  | nil => simp [addVisible]
  | cons e rest ih =>
    obtain ⟨hnotin, hrest⟩ := List.nodupKeys_cons.mp h
    show (addVisible toDelete (if e.1 ∈ toDelete then m else m.insert e.1 e.2) rest).lookup addr = _
    rw [ih hrest]
    by_cases he : addr = e.1
    · subst he
      rw [List.dlookup_eq_none.mpr hnotin, List.dlookup_cons_eq]
      by_cases hdel : e.1 ∈ toDelete
      · simp [hdel]
      · simp [hdel]
    rw [List.dlookup_cons_ne rest e he]
    by_cases hdel : e.1 ∈ toDelete
    · simp [hdel]
    · simp [hdel, lookup_insert_ne he]

theorem lookup_visible (view : StateView) (addr : Address) :
    view.visible.lookup addr = if addr ∈ view.toDelete then none
      else (view.diffs.accounts.lookup addr).or (view.base.lookup addr) := by
  unfold visible
  rw [lookup_addVisible view.diffs.accounts.nodupKeys,
    lookup_addVisible view.base.nodupKeys, lookup_empty]
  split
  · rfl
  · simp [lookup]

theorem CommitSpec.stored_of_visible (h : CommitSpec E db vs block c st) {addr : Address}
    {acct : AccountState} (hvis : st.view.visible.lookup addr = some acct) :
    c.db.state.lookup addr = some acct ∨ c.db.state.lookup addr = none ∧ acct = .default := by
  rw [lookup_visible] at hvis
  split at hvis
  · cases hvis
  rw [h.state, FiniteMap.lookup_insertAll_entries]
  cases hdiff : st.view.diffs.accounts.lookup addr with
  | some changed =>
    rw [hdiff] at hvis
    exact .inl hvis
  | none =>
    rw [hdiff, none_or] at hvis
    have hseeded := seeded_seeding db block
    rw [(executeBody_reaches h.body).base_eq] at hvis
    by_cases hseen : addr ∈ (seeding db block).seen
    · rw [seededView, hseeded.base_seen addr hseen, ZbxDb.getAccount] at hvis
      rw [none_or]
      cases hstored : db.state.lookup addr with
      | some acct' =>
        rw [hstored] at hvis
        exact .inl hvis
      | none =>
        rw [hstored] at hvis
        exact .inr ⟨rfl, (some.inj hvis).symm⟩
    · rw [seededView, hseeded.base_unseen addr hseen] at hvis
      cases hvis

theorem CommitSpec.stored_of_not_visible (h : CommitSpec E db vs block c st) {addr : Address}
    (hvis : st.view.visible.lookup addr = none) :
    c.db.state.lookup addr = db.state.lookup addr := by
  have hdiff : st.view.diffs.accounts.lookup addr = none := by
    rw [lookup_visible] at hvis
    split at hvis
    · rename_i hdel
      exact h.tidy addr hdel
    · exact (or_eq_none_iff.mp hvis).1
  rw [h.state, FiniteMap.lookup_insertAll_entries, hdiff, none_or]

/-! ## Comparing leaves -/

theorem leafAt_clean {accounts : Map Address AccountState} {db : ZbxDbTrieAdapter}
    (addr : Address) : leafAt accounts ∅ db addr = (accounts.lookup addr).bind fun acct =>
      if acct.isEmpty then none else some (encodeAccountRlp acct acct.storageRoot) := by
  unfold leafAt
  refine congrArg _ ?_
  funext acct
  exact accountLeaf_clean (dirtySlots_empty addr) acct

theorem accountLeaf_eq_stored_iff {storage : Map Address (Map H256 H256)}
    {adapter : ZbxDbTrieAdapter} {addr : Address} {acct : AccountState}
    {stored : Option AccountState} (hstored : stored = some acct ∨ stored = none ∧ acct = .default)
    (hroot : ¬ (acct.isEmpty ∧ (dirtySlots storage addr).isNone) →
      ∃ r, leafStorageRoot storage adapter addr acct = .ok r) :
    accountLeaf storage adapter addr acct = (stored.bind fun acct =>
          if acct.isEmpty then none else some (encodeAccountRlp acct acct.storageRoot)) ↔
      ∀ slots, dirtySlots storage addr = some slots → acct.isEmpty = false ∧
        computeStorageRootWithDb slots acct.storageRoot adapter = .ok acct.storageRoot := by
  have hleaf : (stored.bind fun acct =>
      if acct.isEmpty then none else some (encodeAccountRlp acct acct.storageRoot)) =
      if acct.isEmpty then none else some (encodeAccountRlp acct acct.storageRoot) := by
    rcases hstored with rfl | ⟨rfl, rfl⟩
    · rfl
    · rfl
  rw [hleaf]
  cases hdirty : dirtySlots storage addr with
  | none =>
    rw [accountLeaf_clean hdirty]
    exact ⟨fun _ _ h => absurd h (by simp), fun _ => rfl⟩
  | some slots =>
    obtain ⟨r, hr⟩ := hroot (by simp [hdirty])
    have hcompute : computeStorageRootWithDb slots acct.storageRoot adapter = .ok r := by
      rw [← hr, leafStorageRoot, hdirty]
    have hsome : accountLeaf storage adapter addr acct = some (encodeAccountRlp acct r) := by
      unfold accountLeaf
      rw [if_neg (by simp [hdirty]), hr]
    rw [hsome]
    constructor
    · intro h slots' hslots'
      cases hslots'
      split at h
      · cases h
      rename_i hempty
      have hr' := encodeAccountRlp_inj (some.inj h)
      rw [hcompute, hr']
      exact ⟨by simpa using hempty, rfl⟩
    · intro h
      obtain ⟨hempty, hsame⟩ := h slots rfl
      rw [hcompute] at hsame
      rw [hempty, Except.ok.inj hsame]
      rfl

theorem CommitSpec.leaves_eq_iff (h : CommitSpec E db vs block c st)
    {T : MutableTrie ZbxDbTrieAdapter} (hT : committedStateTrie db st.view = .ok () T) :
    (∀ addr, leafAt st.view.visible st.view.diffs.storage (ZbxDbTrieAdapter.new db) addr =
        leafAt c.db.state ∅ (ZbxDbTrieAdapter.new c.db) addr) ↔ CoversStorage db st.view := by
  have hvisible : ∀ addr acct, st.view.visible.lookup addr = some acct →
      (leafAt st.view.visible st.view.diffs.storage (ZbxDbTrieAdapter.new db) addr =
          leafAt c.db.state ∅ (ZbxDbTrieAdapter.new c.db) addr ↔
        ∀ slots, dirtySlots st.view.diffs.storage addr = some slots → acct.isEmpty = false ∧
          computeStorageRootWithDb slots acct.storageRoot (ZbxDbTrieAdapter.new db) =
            .ok acct.storageRoot) := by
    intro addr acct hvis
    rw [leafAt_clean, leafAt, hvis]
    refine accountLeaf_eq_stored_iff (h.stored_of_visible hvis) fun hskip => ?_
    exact leafStorageRoot_ok_of_applyAccounts hT (mem_lookup_iff.mp hvis) hskip
  have hhidden : ∀ addr, st.view.visible.lookup addr = none →
      (leafAt st.view.visible st.view.diffs.storage (ZbxDbTrieAdapter.new db) addr =
          leafAt c.db.state ∅ (ZbxDbTrieAdapter.new c.db) addr ↔
        ∀ acct, db.state.lookup addr = some acct → acct.isEmpty = true) := by
    intro addr hvis
    rw [leafAt_clean, leafAt, hvis, h.stored_of_not_visible hvis]
    cases db.state.lookup addr with
    | none => simp
    | some acct => simp
  constructor
  · intro hleaves
    refine ⟨fun addr acct hacct hempty hvis => ?_, fun addr acct slots hvis hslots => ?_⟩
    · have := (hhidden addr hvis).mp (hleaves addr) acct hacct
      rw [this] at hempty
      cases hempty
    · exact (hvisible addr acct hvis).mp (hleaves addr) slots hslots
  intro hcovers addr
  cases hvis : st.view.visible.lookup addr with
  | some acct => exact (hvisible addr acct hvis).mpr fun slots => hcovers.slots addr acct slots hvis
  | none =>
    refine (hhidden addr hvis).mpr fun acct hacct => ?_
    by_contra hempty
    exact hcovers.loaded addr acct hacct (by simpa using hempty) hvis

/-! ## The root -/

/-- The byte strings that are hashed for the root of a block and for the root over storage
after it. -/
def rootHashes (db : ZbxDb) (view : StateView) (db' : ZbxDb) : Set Bytes :=
  hashedBytes (finalState (committedStateTrie db view)) ∪
    hashedBytes (finalState (storedStateTrie db')) ∪
    (addressBytes view.visible ∪ addressBytes db'.state)

/-- **When the committed root is the root over storage.** -/
theorem committed_root_iff (hbody : executeBody E block db vs (seededView db block) = .ok st)
    (h : executeAndCommit E db vs block = .ok c)
    (hfree : CollisionFree (rootHashes db st.view c.db)) : ∃ root, storedStateRoot c.db = .ok root ∧
      (c.block.header.stateRoot = root ↔ CoversStorage db st.view) := by
  obtain ⟨st', hst⟩ := executeAndCommit_ok h
  cases hbody.symm.trans hst.body
  obtain ⟨T, hT, hroot⟩ := computeStateRootWithDb_ok hst.root
  have hsub : hashedBytes T ⊆ rootHashes db st.view c.db := by
    intro e he
    refine .inl (.inl ?_)
    rw [committedStateTrie, hT]
    exact he
  obtain ⟨T', hT'⟩ := stateTrieWithDb_clean c.db.state (ZbxDbTrieAdapter.new c.db)
    (hfree.mono fun e he => .inl (.inr he))
  have hsub' : hashedBytes T' ⊆ rootHashes db st.view c.db := by
    intro e he
    refine .inl (.inr ?_)
    rw [storedStateTrie, hT']
    exact he
  refine ⟨T'.root, ?_, ?_⟩
  · unfold storedStateRoot computeStateRootWithDb
    rw [hT']
  rw [← hroot, ← hst.leaves_eq_iff hT]
  exact stateRoot_eq_iff hT hT' hfree hsub hsub' (fun e he => .inr (.inl he))
    fun e he => .inr (.inr he)

def rootHashList (db : ZbxDb) (view : StateView) (db' : ZbxDb) : List Bytes :=
  ([0x80] :: (finalState (committedStateTrie db view)).cache.map Prod.snd) ++
    ([0x80] :: (finalState (storedStateTrie db')).cache.map Prod.snd) ++
    ((view.visible.entries.map fun e => e.1.toBytes) ++ db'.state.entries.map fun e => e.1.toBytes)

theorem rootHashes_eq (db : ZbxDb) (view : StateView) (db' : ZbxDb) :
    rootHashes db view db' = {e | e ∈ rootHashList db view db'} := by
  ext e
  simp only [rootHashes, rootHashList, hashedBytes, addressBytes, Set.mem_union, Set.mem_ofPred_eq,
    List.mem_append]

def transferBlock : Block := .first [.basic 0xa1 0 (some 0xb1) 7 []]

/-- The only stored account is loaded, and no slot is written. -/
theorem committed_root_transferBlock :
    ∃ c root, executeAndCommit .idle fundedDb none transferBlock = .ok c ∧
    storedStateRoot c.db = .ok root ∧ c.block.header.stateRoot = root := by
  obtain ⟨st, c, hst, hc, hnodup, hstorage, hloaded⟩ : ∃ st c,
      executeBody .idle transferBlock fundedDb none (seededView fundedDb transferBlock) = .ok st ∧
      executeAndCommit .idle fundedDb none transferBlock = .ok c ∧
      ((rootHashList fundedDb st.view c.db).dedup.map keccak256).Nodup ∧
      st.view.diffs.storage.entries = [] ∧
      ∀ e ∈ fundedDb.state.entries, st.view.visible.lookup e.1 ≠ none := by decide +kernel
  have hfree : CollisionFree (rootHashes fundedDb st.view c.db) := by
    rw [rootHashes_eq]
    exact collisionFree_of_nodup hnodup
  have hcovers : CoversStorage fundedDb st.view := by
    refine ⟨fun addr acct hacct _ => ?_, fun addr acct slots _ hslots => ?_⟩
    · exact hloaded ⟨addr, acct⟩ (mem_lookup_iff.mp hacct)
    · rw [show st.view.diffs.storage = ∅ from ext hstorage, dirtySlots_empty] at hslots
      cases hslots
  obtain ⟨root, hroot, hiff⟩ := committed_root_iff hst hc hfree
  exact ⟨c, root, hc, hroot, hiff.mpr hcovers⟩

def bystanderDb : ZbxDb :=
  fundedDb.putAccount 0xee { AccountState.default with balance := 5 }

/-- The root of the block leaves that account out. -/
theorem bystander_not_in_root : ∃ c, executeAndCommit .idle bystanderDb none transferBlock = .ok c ∧
    c.db.getAccount 0xee = { AccountState.default with balance := 5 } ∧
    storedStateRoot c.db ≠ .ok c.block.header.stateRoot := by
  decide +kernel

end ZbxChain.BlockProducer
