import ZbxChain.State.Mpt
import ZbxChain.Trie.Proof

/-!
# Which trie nodes survive a root computation

`compute_storage_root_with_db` and `compute_state_root_with_db` write into the cache of
a trie that is dropped when they return. The database keeps what it held before, so
the returned root can be read back exactly when all its nodes were there already.
-/

namespace ZbxChain.Mpt

open MutableTrie TrieOp RlpStream List H256

/-! ## The updates as trie operations -/

theorem out_append_new (d : Bytes) : (RlpStream.new.append d).out = RlpStream.stringItem d := by
  simp [RlpStream.out, RlpStream.append, RlpStream.encodeString, RlpStream.new]

variable (value : H256)

theorem slotValue_ne_nil : slotValue value ≠ [] := by
  rw [slotValue, out_append_new]
  exact (Rlp.isItem_stringItem _).1

theorem length_slotValue_le : (slotValue value).length ≤ 41 := by
  rw [slotValue, out_append_new]
  have hitem := Rlp.length_stringItem (stripLeadingZeros value.toBytes)
  have htrim := length_trimZeros_le value.toBytes
  rw [length_toBytes] at htrim
  unfold stripLeadingZeros at hitem ⊢
  omega

theorem length_slotKey (slot : H256) : (slotKey slot).length = 32 := length_toBytes _

variable (addr : Address)

theorem length_accountKey : (accountKey addr).length = 32 := length_toBytes _

def accountItems (state : AccountState) (storageRoot : H256) : List Bytes :=
  [u64MinBe state.nonce, stripLeadingZeros (toBytes state.balance), storageRoot.toBytes,
    toBytes state.codeHash] ++ if state.vm = .zvm then [[1]] else []

variable (state : AccountState) (storageRoot : H256)

theorem encodeAccountRlp_eq : encodeAccountRlp state storageRoot =
      listItem ((accountItems state storageRoot).map stringItem).flatten := by
  rw [← out_newList (if state.vm = .zvm then 5 else 4)]
  unfold encodeAccountRlp accountItems
  by_cases hzvm : state.vm = .zvm <;>
    simp [hzvm, newList, append, encodeString, appendRaw]

theorem encodeAccountRlp_ne_nil : encodeAccountRlp state storageRoot ≠ [] := by
  rw [encodeAccountRlp_eq]
  exact (Rlp.isItem_listItem _).1

theorem length_accountItem_le {state : AccountState} {storageRoot : H256} {item : Bytes}
    (h : item ∈ accountItems state storageRoot) : (stringItem item).length ≤ 41 := by
  have hlen : item.length ≤ 32 := by
    have hnonce : (u64MinBe state.nonce).length ≤ 32 := by
      unfold u64MinBe
      split
      · simp
      have := length_trimZeros_le (beBytes 8 state.nonce.toNat)
      rw [length_beBytes] at this
      omega
    have hbalance := length_trimZeros_le (toBytes state.balance)
    rw [length_toBytes] at hbalance
    simp only [accountItems, stripLeadingZeros, cons_append, nil_append,
      mem_cons] at h
    rcases h with rfl | rfl | rfl | rfl | h
    · exact hnonce
    · exact hbalance
    · simp
    · simp
    split at h
    · rw [mem_singleton.mp h]
      decide
    · simp at h
  have := Rlp.length_stringItem item
  omega

theorem length_encodeAccountRlp_le : (encodeAccountRlp state storageRoot).length ≤ 214 := by
  rw [encodeAccountRlp_eq]
  have hlist := Rlp.length_listItem
    ((accountItems state storageRoot).map stringItem).flatten
  have hcount : (accountItems state storageRoot).length ≤ 5 := by
    unfold accountItems
    split <;> simp
  have hflat : ∀ l : List Bytes, (∀ item ∈ l, (stringItem item).length ≤ 41) →
      (l.map stringItem).flatten.length ≤ 41 * l.length := by
    intro l hl
    induction l with
    | nil => simp
    | cons item l ih =>
      have hitem := hl item mem_cons_self
      have hrest := ih fun i hi => hl i (mem_cons_of_mem _ hi)
      simp only [map_cons, flatten_cons, length_append, length_cons]
      omega
  have := hflat (accountItems state storageRoot) fun item hitem => length_accountItem_le hitem
  omega

theorem slot_fits (slot value : H256) :
    2 * (slotKey slot).length + (slotValue value).length < 2 ^ 62 := by
  have := length_slotValue_le value
  rw [length_slotKey]
  omega

theorem account_fits :
    2 * (accountKey addr).length + (encodeAccountRlp state storageRoot).length < 2 ^ 62 := by
  have := length_encodeAccountRlp_le state storageRoot
  rw [length_accountKey]
  omega

def slotOp (slot value : H256) : TrieOp :=
  if value = 0 then .delete (slotKey slot)
  else .insert (slotKey slot) (slotValue value) (slotValue_ne_nil value) (slot_fits slot value)

def slotOps (slots : Map H256 H256) : List TrieOp :=
  slots.entries.map fun entry => slotOp entry.1 entry.2

section

variable {DB : Type} [TrieDB DB]

/-- The account's leaf, as an insertion; `none` when the account is left out, or when its
storage root cannot be computed. -/
def accountOp (storage : Map Address (Map H256 H256)) (db : DB) (addr : Address)
    (state : AccountState) : Option TrieOp :=
  if state.isEmpty ∧ (dirtySlots storage addr).isNone then none
  else
    match leafStorageRoot storage db addr state with
    | .ok storageRoot =>
      some (.insert (accountKey addr) (encodeAccountRlp state storageRoot)
        (encodeAccountRlp_ne_nil state storageRoot) (account_fits addr state storageRoot))
    | .error _ => none

def accountOps (accounts : Map Address AccountState) (storage : Map Address (Map H256 H256))
    (db : DB) : List TrieOp :=
  accounts.entries.filterMap fun entry => accountOp storage db entry.1 entry.2

theorem applySlot_eq (slot value : H256) :
    (applySlot slot value : TrieM DB Unit) = (do
      let _ ← (slotOp slot value).run
      pure ()) := by
  unfold applySlot slotOp
  split
  · simp only [TrieOp.run, bind_assoc, pure_bind]
  · simp only [TrieOp.run, bind_assoc, pure_bind]
    exact (bind_pure_unit (x := MutableTrie.insert (slotKey slot) (slotValue value))).symm

theorem applySlots_eq (entries : List ((_ : H256) × H256)) : (applySlots entries : TrieM DB Unit) =
      exec (entries.map fun entry => slotOp entry.1 entry.2) := by
  induction entries with
  | nil => rfl
  | cons entry rest ih =>
    simp only [applySlots, map_cons, exec, applySlot_eq, ih, bind_assoc, pure_bind]

variable {db : DB} {prevRoot : H256} {storage : Map Address (Map H256 H256)}
  {accounts : Map Address AccountState} {slots : Map H256 H256} {T T' : MutableTrie DB}
  {S : Set Bytes}

theorem applyAccount_ok {addr : Address} {state : AccountState}
    (h : applyAccount storage db addr state T = .ok () T') :
    exec (accountOp storage db addr state).toList T = .ok () T' := by
  unfold applyAccount at h
  unfold accountOp
  split at h
  · next hskip =>
    rw [if_pos hskip]
    exact h
  · next hskip =>
    rw [if_neg hskip]
    cases hroot : leafStorageRoot storage db addr state with
    | error e =>
      rw [hroot] at h
      exact absurd h (by simp)
    | ok storageRoot =>
      rw [hroot] at h
      simp only [Option.toList_some, exec, TrieOp.run, bind_assoc, pure_bind]
      rw [estate_bind_ok h]
      rfl

theorem filterMap_cons_toList {α β : Type} (f : α → Option β) (a : α) (l : List α) :
    (a :: l).filterMap f = (f a).toList ++ l.filterMap f := by
  rw [filterMap_cons]
  cases f a <;> rfl

theorem applyAccounts_ok {entries : List ((_ : Address) × AccountState)}
    (h : applyAccounts storage db entries T = .ok () T') :
    exec (entries.filterMap fun entry => accountOp storage db entry.1 entry.2) T = .ok () T' := by
  induction entries generalizing T with
  | nil => exact h
  | cons entry rest ih =>
    simp only [applyAccounts] at h
    cases hfirst : applyAccount storage db entry.1 entry.2 T with
    | error e T₁ =>
      rw [estate_bind_error hfirst] at h
      exact absurd h (by simp)
    | ok u T₁ =>
      rw [estate_bind_ok hfirst] at h
      rw [filterMap_cons_toList, exec_append, estate_bind_ok (applyAccount_ok hfirst)]
      exact ih h

omit [TrieDB DB] in
theorem sound_of_later (hcache : T.cache = []) (h : Later T T') (hS : hashedBytes T' ⊆ S) :
    Sound S T' := by
  obtain ⟨-, added, hadded, hhash⟩ := h
  rw [hcache, append_nil] at hadded
  intro x hx
  exact ⟨hhash x (hadded ▸ hx), hS (mem_cons_of_mem _ (mem_map_of_mem hx))⟩

theorem storageTrieWithDb_models {m : Bytes → Option Bytes}
    (hprev : Models Set.univ (fromRoot prevRoot db) m) (hdb : storedBytes db ⊆ S)
    (hhashed : hashedBytes (finalState (storageTrieWithDb slots prevRoot db)) ⊆ S)
    (hS : CollisionFree S) :
    ∃ T, storageTrieWithDb slots prevRoot db = .ok () T ∧
    Models S T (mapAfter (slotOps slots) m) := by
  obtain ⟨t, hrep, hm⟩ := hprev
  have hmodels : Models S (fromRoot prevRoot db) m := by
    refine ⟨t, hrep.readable.subset ?_, hm⟩
    rw [readable_fromRoot]
    exact hdb
  have hrun : storageTrieWithDb slots prevRoot db = exec (slotOps slots) (fromRoot prevRoot db) := by
    rw [storageTrieWithDb, applySlots_eq, slotOps]
  rw [hrun] at hhashed ⊢
  exact hmodels.exec hS (hdb (.inl rfl)) _ (sound_of_later rfl (later_exec _ _) hhashed)

theorem stateTrieWithDb_models (h : stateTrieWithDb accounts storage db = .ok () T)
    (hS : hashedBytes T ⊆ S) (hfree : CollisionFree S) :
    Models S T (mapAfter (accountOps accounts storage db) fun _ => none) := by
  have hexec := applyAccounts_ok h
  have hlater := later_exec (accountOps accounts storage db) (new db)
  rw [accountOps, hexec] at hlater
  obtain ⟨T', hT', hmodels⟩ := (models_new S db).exec hfree (hS (emptyString_mem_hashedBytes T))
    (accountOps accounts storage db)
    (by rw [accountOps, hexec]; exact sound_of_later rfl hlater hS)
  rw [accountOps, hexec] at hT'
  cases hT'
  exact hmodels

theorem computeStorageRootWithDb_ok (h : storageTrieWithDb slots prevRoot db = .ok () T) :
    computeStorageRootWithDb slots prevRoot db = .ok T.root := by
  simp only [computeStorageRootWithDb, h]
  split
  · next hempty => rw [hempty]
  · rfl

theorem computeStateRootWithDb_ok {r : H256}
    (h : computeStateRootWithDb accounts storage db = .ok r) :
    ∃ T, stateTrieWithDb accounts storage db = .ok () T ∧ T.root = r := by
  unfold computeStateRootWithDb at h
  split at h
  · next T htrie => exact ⟨T, htrie, Except.ok.inj h⟩
  · cases h

end

/-! ## What is left after the computation -/

/-- **Only nodes that were there before can be read back.** The computations leave the
adapter as it is. Once it is committed, the storage root computed over a complete
previous trie answers every key exactly when the adapter already had the nodes of the
updated slot map; and a computed state root answers every key exactly when the adapter
already had the nodes of the account map. -/
theorem roots_answer_iff_stored (adapter : ZbxDbTrieAdapter)
    (haddr : ContentAddressed adapter.commit) :
    (∀ (slots : Map H256 H256) (prevRoot : H256) (m : Bytes → Option Bytes),
      Models Set.univ (fromRoot prevRoot adapter) m → CollisionFree (storedBytes adapter ∪
        hashedBytes (finalState (storageTrieWithDb slots prevRoot adapter)) ∪
          storedBytes adapter.commit) →
      ∃ r, computeStorageRootWithDb slots prevRoot adapter = .ok r ∧
        (Answers adapter.commit r ↔ Stores adapter.commit (mapAfter (slotOps slots) m))) ∧
    (∀ (accounts : Map Address AccountState) (storage : Map Address (Map H256 H256)) (r : H256),
      computeStateRootWithDb accounts storage adapter = .ok r →
      CollisionFree (hashedBytes (finalState (stateTrieWithDb accounts storage adapter)) ∪
        storedBytes adapter.commit) → (Answers adapter.commit r ↔
        Stores adapter.commit (mapAfter (accountOps accounts storage adapter) fun _ => none))) := by
  constructor
  · intro slots prevRoot m hprev hfree
    obtain ⟨T, hT, hmodels⟩ := storageTrieWithDb_models hprev Set.subset_union_left
      Set.subset_union_right (hfree.mono Set.subset_union_left)
    exact ⟨T.root, computeStorageRootWithDb_ok hT, answers_iff_stores hfree haddr hmodels⟩
  intro accounts storage r hr hfree
  obtain ⟨T, hT, rfl⟩ := computeStateRootWithDb_ok hr
  rw [hT, finalState_ok] at hfree
  have hmodels := stateTrieWithDb_models hT subset_rfl (hfree.mono Set.subset_union_left)
  exact answers_iff_stores hfree haddr hmodels

def emptyAdapter : ZbxDbTrieAdapter := .new .empty

def freshSlot : Map H256 H256 := AList.singleton 1 5

/-- One slot written over the empty storage trie of an empty database: the root is
returned, and after the commit its node is missing. -/
theorem freshSlot_missing :
    ∃ r, computeStorageRootWithDb freshSlot emptyStorageRoot emptyAdapter = .ok r ∧
      (fromRoot r emptyAdapter.commit).get (slotKey 1) = .error (.err (.missingNode r)) := by
  refine ⟨_, rfl, ?_⟩
  decide +kernel

def slotTree : NibbleTree := .leaf (Nibbles.fromBytes (slotKey 1)) (slotValue 5)

def slotMap : Bytes → Option Bytes := Function.update (fun _ => none) (slotKey 1) (slotValue 5)

def slotAdapter : ZbxDbTrieAdapter :=
  .new { ZbxDb.empty with
    trieNodes := AList.singleton (keccak256 (NibbleTree.bytes slotTree)) (NibbleTree.bytes slotTree) }

theorem get_slotAdapter {h : H256} {e : Bytes} (hget : TrieDB.get slotAdapter h = .ok (some e)) :
    h = keccak256 (NibbleTree.bytes slotTree) ∧ e = NibbleTree.bytes slotTree := by
  have hlookup := AList.mem_lookup_iff.mp (Except.ok.inj hget)
  cases List.mem_singleton.mp hlookup
  exact ⟨rfl, rfl⟩

theorem storedBytes_slotAdapter : storedBytes slotAdapter ⊆ {e | e ∈ [[0x80], NibbleTree.bytes slotTree]} := by
  rintro e (rfl | ⟨h, hget⟩)
  · exact List.mem_cons_self
  · rw [(get_slotAdapter hget).2]
    exact List.mem_cons_of_mem _ List.mem_cons_self

theorem lookup_slotTree {w : Nibbles} {v : Bytes} : Radix.lookup slotTree w = some v ↔
    w = Nibbles.fromBytes (slotKey 1) ∧ v = slotValue 5 := by
  unfold slotTree
  simp only [Radix.lookup]
  split <;> simp_all [eq_comm]

theorem represents_slotTree :
    Represents Set.univ (fromRoot (rootHash slotTree) slotAdapter) slotTree := by
  refine ⟨.leaf _ _, fun k v hk => ?_, closed_leaf _ _, rfl, fun _ => ⟨trivial, ?_⟩⟩
  · obtain ⟨rfl, rfl⟩ := lookup_slotTree.mp hk
    decide +kernel
  · exact (nodeBytes_fromRoot _ _ _ _).mpr (congrArg _ (AList.lookup_insert ∅))

/-- The slot rewritten with its value: its leaf is there, and the root is answered. -/
theorem roots_answer_sameSlot : computeStorageRootWithDb freshSlot (rootHash slotTree) slotAdapter =
      .ok (rootHash slotTree) ∧ Answers slotAdapter.commit (rootHash slotTree) := by
  have haddr : ContentAddressed slotAdapter.commit := fun h e hget => by
    obtain ⟨rfl, rfl⟩ := get_slotAdapter hget
    rfl
  have hmodels : Models Set.univ (fromRoot (rootHash slotTree) slotAdapter) slotMap := by
    refine ⟨slotTree, represents_slotTree, fun w v => lookup_slotTree.trans ?_⟩
    constructor
    · rintro ⟨rfl, rfl⟩
      exact ⟨_, rfl, Function.update_self ..⟩
    · rintro ⟨key, rfl, hkey⟩
      by_cases hslot : key = slotKey 1
      · subst hslot
        exact ⟨rfl, Option.some.inj (hkey.symm.trans (Function.update_self ..))⟩
      · cases (Function.update_of_ne hslot ..).symm.trans hkey
  have hmap : mapAfter (slotOps freshSlot) slotMap = slotMap := Function.update_idem _ _ _
  have hfree : CollisionFree (storedBytes slotAdapter ∪ hashedBytes (finalState
      (storageTrieWithDb freshSlot (rootHash slotTree) slotAdapter)) ∪
        storedBytes slotAdapter.commit) := by
    refine (collisionFree_of_nodup (l := [[0x80], NibbleTree.bytes slotTree])
      (by decide +kernel)).mono (Set.union_subset (Set.union_subset storedBytes_slotAdapter ?_)
        storedBytes_slotAdapter)
    show ∀ e ∈ [0x80] :: List.map _ _, e ∈ [[0x80], NibbleTree.bytes slotTree]
    decide +kernel
  have hroot : computeStorageRootWithDb freshSlot (rootHash slotTree) slotAdapter =
      .ok (rootHash slotTree) := by decide +kernel
  obtain ⟨r, hr, hiff⟩ := (roots_answer_iff_stored slotAdapter haddr).1 freshSlot _ _ hmodels hfree
  cases hroot.symm.trans hr
  exact ⟨hroot, hiff.mpr (hmap.symm ▸ ⟨_, hmodels⟩)⟩

end ZbxChain.Mpt

/-!
## The storage root over a previous trie

`compute_storage_root_with_db` of `zbx-state/src/mpt.rs`, by the slots that it is about.
-/

namespace ZbxChain.Mpt

open List MutableTrie NibbleTree Radix TrieOp Function

def LeavesOf (f : H256 → H256) (m : Bytes → Option Bytes) : Prop :=
  ∀ key v, m key = some v ↔ ∃ slot, key = slotKey slot ∧ f slot ≠ 0 ∧ v = slotValue (f slot)

structure TreeOf (f : H256 → H256) (t : NibbleTree) : Prop where
  canonical : Canonical t
  leaves : ∀ w v, lookup t w = some v ↔
    ∃ slot, w = Nibbles.fromBytes (slotKey slot) ∧ f slot ≠ 0 ∧ v = slotValue (f slot)

def overlay (slots : Map H256 H256) (prev : H256 → H256) (slot : H256) : H256 :=
  (slots.lookup slot).getD (prev slot)

def slotBytes (slots : Map H256 H256) (prev : H256 → H256) : Set Bytes :=
  {b | ∃ slot, (prev slot ≠ 0 ∨ slot ∈ slots) ∧ b = slot.toBytes}

variable {f : H256 → H256} {m : Bytes → Option Bytes} {slot : H256}

theorem TreeOf.eq {s t : NibbleTree} (hs : TreeOf f s) (ht : TreeOf f t) : s = t := by
  refine hs.canonical.eq_of_lookup_eq ht.canonical (funext fun w => Option.ext fun v => ?_)
  exact (hs.leaves w v).trans (ht.leaves w v).symm

theorem LeavesOf.onMap_slotOp (h : LeavesOf f m) (value : H256)
    (hkey : ∀ other, f other ≠ 0 → slotKey slot = slotKey other → other = slot) :
    LeavesOf (update f slot value) ((slotOp slot value).onMap m) := by
  have honMap : (slotOp slot value).onMap m =
      update m (slotKey slot) (if value = 0 then none else some (slotValue value)) := by
    unfold slotOp
    split <;> rfl
  intro key v
  rw [honMap]
  by_cases hsame : key = slotKey slot
  · subst hsame
    rw [update_self]
    grind
  · rw [update_of_ne hsame, h key v]
    grind

theorem leavesOf_mapAfter {K : Set H256} (hK : Set.InjOn slotKey K)
    {entries : List ((_ : H256) × H256)} (hnodup : entries.NodupKeys)
    (hentries : ∀ e ∈ entries, e.1 ∈ K) (hf : ∀ slot, f slot ≠ 0 → slot ∈ K) (h : LeavesOf f m) :
    LeavesOf (fun slot => (entries.dlookup slot).getD (f slot))
      (mapAfter (entries.map fun e => slotOp e.1 e.2) m) := by
  induction entries generalizing f m with
  | nil => exact h
  | cons e rest ih =>
    obtain ⟨hnotin, hrest⟩ := nodupKeys_cons.mp hnodup
    have hfirst := hentries e mem_cons_self
    have hstep := h.onMap_slotOp e.2 fun other hother hkey => hK (hf other hother) hfirst hkey.symm
    have hf' : ∀ slot, update f e.1 e.2 slot ≠ 0 → slot ∈ K := by grind
    have hall := ih hrest (fun x hx => hentries x (mem_cons_of_mem _ hx)) hf' hstep
    have hread : (fun slot => ((e :: rest).dlookup slot).getD (f slot)) =
        fun slot => (rest.dlookup slot).getD (update f e.1 e.2 slot) := by
      funext slot
      by_cases hslot : slot = e.1
      · subst hslot
        rw [dlookup_eq_none.mpr hnotin, dlookup_cons_eq, update_self]
        rfl
      · rw [dlookup_cons_ne rest e hslot, update_of_ne hslot]
    rw [hread]
    exact hall

variable {DB : Type} [TrieDB DB]

/-- **The storage root is that of the slots.** -/
theorem computeStorageRootWithDb_overlay (slots : Map H256 H256) (prevRoot : H256) (db : DB)
    (prev : H256 → H256) {t₀ : NibbleTree} (hstored : Represents Set.univ (fromRoot prevRoot db) t₀)
    (hprev : TreeOf prev t₀) (hfree : CollisionFree (storedBytes db ∪
      hashedBytes (finalState (storageTrieWithDb slots prevRoot db)) ∪ slotBytes slots prev)) :
    ∃ t, TreeOf (overlay slots prev) t ∧ (∀ t', TreeOf (overlay slots prev) t' → t' = t) ∧
      computeStorageRootWithDb slots prevRoot db = .ok (rootHash t) := by
  have hmodels : Models Set.univ (fromRoot prevRoot db)
      fun key => lookup t₀ (Nibbles.fromBytes key) := by
    refine ⟨t₀, hstored, fun w v => ⟨fun hw => ?_, ?_⟩⟩
    · obtain ⟨slot, rfl, -⟩ := (hprev.leaves w v).mp hw
      exact ⟨_, rfl, hw⟩
    · rintro ⟨key, rfl, hkey⟩
      exact hkey
  have hleaves : LeavesOf prev fun key => lookup t₀ (Nibbles.fromBytes key) := by
    intro key v
    rw [hprev.leaves]
    simp only [Nibbles.fromBytes_injective.eq_iff]
  have hinj : Set.InjOn slotKey {slot | prev slot ≠ 0 ∨ slot ∈ slots} := by
    intro a ha b hb hab
    exact H256.toBytes_injective
      (hfree.eq (.inr ⟨a, ha, rfl⟩) (.inr ⟨b, hb, rfl⟩) (H256.toBytes_injective hab))
  obtain ⟨T, hT, t, hrep, hmap⟩ := storageTrieWithDb_models hmodels
    (Set.subset_union_left.trans Set.subset_union_left)
    (Set.subset_union_right.trans Set.subset_union_left) hfree
  have hafter := leavesOf_mapAfter hinj slots.nodupKeys
    (fun e he => .inr (AList.mem_keys.mpr (mem_map_of_mem he))) (fun _ h => .inl h) hleaves
  have htree : TreeOf (overlay slots prev) t := by
    refine ⟨hrep.canonical, fun w v => ?_⟩
    rw [hmap w v]
    constructor
    · rintro ⟨key, rfl, hkey⟩
      obtain ⟨slot, rfl, hslot⟩ := (hafter key v).mp hkey
      exact ⟨slot, rfl, hslot⟩
    · rintro ⟨slot, rfl, hslot⟩
      exact ⟨_, rfl, (hafter _ v).mpr ⟨slot, rfl, hslot⟩⟩
  exact ⟨t, htree, fun t' ht' => ht'.eq htree, hrep.root ▸ computeStorageRootWithDb_ok hT⟩

def movedSlot : Map H256 H256 := AList.insert 1 0 (AList.singleton 2 7)

theorem computeStorageRootWithDb_movedSlot :
    ∃ t, TreeOf (overlay movedSlot fun slot => if slot = 1 then 5 else 0) t ∧
      computeStorageRootWithDb movedSlot (rootHash slotTree) slotAdapter = .ok (rootHash t) := by
  have htree : TreeOf (fun slot => if slot = 1 then 5 else 0) slotTree := by
    refine ⟨.leaf _ _, fun w v => lookup_slotTree.trans ⟨?_, ?_⟩⟩
    · rintro ⟨rfl, rfl⟩
      exact ⟨1, rfl, by decide, rfl⟩
    · rintro ⟨slot, rfl, hslot, rfl⟩
      obtain rfl : slot = 1 := by
        by_contra hne
        exact hslot (if_neg hne)
      exact ⟨rfl, rfl⟩
  have hfree : CollisionFree (storedBytes slotAdapter ∪ hashedBytes (finalState
      (storageTrieWithDb movedSlot (rootHash slotTree) slotAdapter)) ∪
        slotBytes movedSlot fun slot => if slot = 1 then 5 else 0) := by
    refine (collisionFree_of_nodup (l := (H256.toBytes 1 :: H256.toBytes 2 :: [0x80] ::
      (finalState (storageTrieWithDb movedSlot (rootHash slotTree) slotAdapter)).cache.map
        Prod.snd) ++ [bytes slotTree]) (by decide +kernel)).mono ?_
    rintro e ((he | he) | ⟨slot, hslot, rfl⟩)
    · have hstored : e = [0x80] ∨ e = bytes slotTree := by simpa using storedBytes_slotAdapter he
      rcases hstored with rfl | rfl <;> simp
    · exact mem_append_left _ (mem_cons_of_mem _ (mem_cons_of_mem _ he))
    · have hmoved : slot = 1 ∨ slot = 2 := by
        rcases hslot with hprev | hnew
        · exact .inl (by by_contra hne; exact hprev (if_neg hne))
        · exact (AList.mem_insert _).mp hnew |>.imp_right List.mem_singleton.mp
      rcases hmoved with rfl | rfl <;> simp
  obtain ⟨t, ht, -, hroot⟩ := computeStorageRootWithDb_overlay movedSlot (rootHash slotTree)
    slotAdapter _ represents_slotTree htree hfree
  exact ⟨t, ht, hroot⟩

end ZbxChain.Mpt
