import ZbxChain.State.NodePersistence

/-!
# The leaves of the account trie

An account trie is determined by the leaf that it has under each address, and so is its
root (`stateRoot_eq_iff`). Two account sets, each with its own dirty slots, have the same
root exactly when they have the same leaves.
-/

namespace ZbxChain.Mpt

open MutableTrie TrieOp List Rlp RlpStream Function

section

variable {DB : Type} [TrieDB DB] {accounts : Map Address AccountState}
  {storage : Map Address (Map H256 H256)} {db : DB}

def accountLeaf (storage : Map Address (Map H256 H256)) (db : DB) (addr : Address)
    (state : AccountState) : Option Bytes :=
  if state.isEmpty ∧ (dirtySlots storage addr).isNone then none
  else
    match leafStorageRoot storage db addr state with
    | .ok storageRoot => some (encodeAccountRlp state storageRoot)
    | .error _ => none

def leafAt (accounts : Map Address AccountState) (storage : Map Address (Map H256 H256)) (db : DB)
    (addr : Address) : Option Bytes :=
  (accounts.lookup addr).bind (accountLeaf storage db addr)

theorem mapAfter_append (ops₁ ops₂ : List TrieOp) (m : Bytes → Option Bytes) :
    mapAfter (ops₁ ++ ops₂) m = mapAfter ops₂ (mapAfter ops₁ m) :=
  foldl_append

theorem mapAfter_accountOp (addr : Address) (state : AccountState) (m : Bytes → Option Bytes) :
    mapAfter (accountOp storage db addr state).toList m = update m (accountKey addr)
        ((accountLeaf storage db addr state).or (m (accountKey addr))) := by
  unfold accountOp accountLeaf
  split
  · exact (update_eq_self _ _).symm
  cases leafStorageRoot storage db addr state with
  | ok storageRoot => rfl
  | error e => exact (update_eq_self _ _).symm

variable {K : Set Address} (hK : Set.InjOn accountKey K) {addr : Address} {db' : DB}
  {entries : List ((_ : Address) × AccountState)} {storage' : Map Address (Map H256 H256)}
  {accounts' : Map Address AccountState} {T T' : MutableTrie DB} {S : Set Bytes}

include hK in
theorem mapAfter_filterMap_accountOp (hnodup : entries.NodupKeys)
    (hentries : ∀ e ∈ entries, e.1 ∈ K) (m : Bytes → Option Bytes) (haddr : addr ∈ K) :
    mapAfter (entries.filterMap fun e => accountOp storage db e.1 e.2) m (accountKey addr) =
      ((entries.dlookup addr).bind (accountLeaf storage db addr)).or (m (accountKey addr)) := by
  induction entries generalizing m with
  | nil => rfl
  | cons e rest ih =>
    obtain ⟨hnotin, hrest⟩ := nodupKeys_cons.mp hnodup
    have hstep := ih hrest (fun x hx => hentries x (mem_cons_of_mem _ hx))
    rw [filterMap_cons_toList, mapAfter_append, mapAfter_accountOp, hstep]
    by_cases he : addr = e.1
    · subst he
      rw [dlookup_eq_none.mpr hnotin, dlookup_cons_eq, update_self]
      rfl
    have hkey : accountKey addr ≠ accountKey e.1 := by
      intro h
      exact he (hK haddr (hentries e mem_cons_self) h)
    rw [dlookup_cons_ne rest e he, update_of_ne hkey]

theorem mapAfter_filterMap_accountOp_of_ne (m : Bytes → Option Bytes) {key : Bytes}
    (hkey : ∀ e ∈ entries, key ≠ accountKey e.1) :
    mapAfter (entries.filterMap fun e => accountOp storage db e.1 e.2) m key = m key := by
  induction entries generalizing m with
  | nil => rfl
  | cons e rest ih =>
    rw [filterMap_cons_toList, mapAfter_append, mapAfter_accountOp,
      ih _ fun x hx => hkey x (mem_cons_of_mem _ hx),
      update_of_ne (hkey e mem_cons_self)]

theorem leafAt_of_notMem (h : ∀ e ∈ accounts.entries, e.1 ∈ K) (haddr : addr ∉ K) :
    leafAt accounts storage db addr = none := by
  have hnone : accounts.lookup addr = none := by
    refine AList.lookup_eq_none.mpr fun hmem => ?_
    obtain ⟨e, he, rfl⟩ := mem_map.mp hmem
    exact haddr (h e he)
  rw [leafAt, hnone]
  rfl

include hK in
theorem mapAfter_accountOps_eq_iff (h : ∀ e ∈ accounts.entries, e.1 ∈ K)
    (h' : ∀ e ∈ accounts'.entries, e.1 ∈ K) :
    mapAfter (accountOps accounts storage db) (fun _ => none) =
        mapAfter (accountOps accounts' storage' db') (fun _ => none) ↔
      ∀ addr, leafAt accounts storage db addr = leafAt accounts' storage' db' addr := by
  have hleaf : ∀ addr ∈ K, mapAfter (accountOps accounts storage db) (fun _ => none)
      (accountKey addr) = leafAt accounts storage db addr := by
    intro addr haddr
    rw [accountOps, mapAfter_filterMap_accountOp hK accounts.nodupKeys h _ haddr, Option.or_none]
    rfl
  have hleaf' : ∀ addr ∈ K, mapAfter (accountOps accounts' storage' db') (fun _ => none)
      (accountKey addr) = leafAt accounts' storage' db' addr := by
    intro addr haddr
    rw [accountOps, mapAfter_filterMap_accountOp hK accounts'.nodupKeys h' _ haddr, Option.or_none]
    rfl
  constructor
  · intro heq addr
    by_cases haddr : addr ∈ K
    · rw [← hleaf addr haddr, ← hleaf' addr haddr, heq]
    · rw [leafAt_of_notMem h haddr, leafAt_of_notMem h' haddr]
  intro heq
  funext key
  by_cases hkey : ∃ addr ∈ K, key = accountKey addr
  · obtain ⟨addr, haddr, rfl⟩ := hkey
    rw [hleaf addr haddr, hleaf' addr haddr, heq]
  have hother : ∀ e : (_ : Address) × AccountState, e.1 ∈ K → key ≠ accountKey e.1 := by
    intro e he hk
    exact hkey ⟨e.1, he, hk⟩
  rw [accountOps, accountOps,
    mapAfter_filterMap_accountOp_of_ne _ fun e he => hother e (h e he),
    mapAfter_filterMap_accountOp_of_ne _ fun e he => hother e (h' e he)]

def addressBytes (accounts : Map Address AccountState) : Set Bytes :=
  {e | e ∈ accounts.entries.map fun entry => entry.1.toBytes}

theorem injOn_accountKey (hfree : CollisionFree S) :
    Set.InjOn accountKey {addr | addr.toBytes ∈ S} := by
  intro a ha b hb hab
  exact Address.toBytes_injective (hfree.eq ha hb (H256.toBytes_injective hab))

/-- **The root of an account trie commits to its leaves.** -/
theorem stateRoot_eq_iff (h : stateTrieWithDb accounts storage db = .ok () T)
    (h' : stateTrieWithDb accounts' storage' db' = .ok () T') (hfree : CollisionFree S)
    (hT : hashedBytes T ⊆ S) (hT' : hashedBytes T' ⊆ S) (hkeys : addressBytes accounts ⊆ S)
    (hkeys' : addressBytes accounts' ⊆ S) : T.root = T'.root ↔
      ∀ addr, leafAt accounts storage db addr = leafAt accounts' storage' db' addr := by
  have hmodels := stateTrieWithDb_models h hT hfree
  have hmodels' := stateTrieWithDb_models h' hT' hfree
  rw [hmodels.root_eq_iff hfree (hT (emptyString_mem_hashedBytes T)) hmodels']
  refine mapAfter_accountOps_eq_iff (injOn_accountKey hfree) ?_ ?_
  · exact fun e he => hkeys (mem_map.mpr ⟨e, he, rfl⟩)
  · exact fun e he => hkeys' (mem_map.mpr ⟨e, he, rfl⟩)

theorem leafStorageRoot_ok_of_applyAccounts (h : applyAccounts storage db entries T = .ok () T')
    {state : AccountState} (hmem : ⟨addr, state⟩ ∈ entries)
    (hleaf : ¬ (state.isEmpty ∧ (dirtySlots storage addr).isNone)) :
    ∃ r, leafStorageRoot storage db addr state = .ok r := by
  induction entries generalizing T with
  | nil => cases hmem
  | cons e rest ih =>
    simp only [applyAccounts] at h
    cases hfirst : applyAccount storage db e.1 e.2 T with
    | error fault T₁ =>
      rw [estate_bind_error hfirst] at h
      exact absurd h (by simp)
    | ok u T₁ =>
      rw [estate_bind_ok hfirst] at h
      rcases mem_cons.mp hmem with rfl | hrest
      · unfold applyAccount at hfirst
        rw [if_neg hleaf] at hfirst
        cases hroot : leafStorageRoot storage db addr state with
        | ok r => exact ⟨r, rfl⟩
        | error fault =>
          rw [hroot] at hfirst
          exact absurd hfirst (by simp)
      · exact ih h hrest

/-! ## Accounts without dirty slots -/

theorem dirtySlots_empty (addr : Address) : dirtySlots ∅ addr = none := by
  unfold dirtySlots
  rw [AList.lookup_empty]

theorem accountLeaf_clean (h : dirtySlots storage addr = none) (state : AccountState) :
    accountLeaf storage db addr state =
      if state.isEmpty then none else some (encodeAccountRlp state state.storageRoot) := by
  unfold accountLeaf leafStorageRoot
  rw [h]
  by_cases hempty : state.isEmpty = true <;> simp [hempty]

variable (entries) in
theorem applyAccounts_clean : (applyAccounts ∅ db entries : TrieM DB Unit) =
      exec (entries.filterMap fun e => accountOp ∅ db e.1 e.2) := by
  induction entries with
  | nil => rfl
  | cons e rest ih =>
    have hfirst : (applyAccount ∅ db e.1 e.2 : TrieM DB Unit) =
        exec (accountOp ∅ db e.1 e.2).toList := by
      unfold applyAccount accountOp leafStorageRoot
      rw [dirtySlots_empty]
      by_cases hempty : e.2.isEmpty = true
      · simp [hempty, exec]
      simp only [hempty, Bool.false_eq_true, false_and, if_false, Option.toList_some, exec,
        TrieOp.run, bind_assoc, pure_bind]
      exact (bind_pure_unit (x := MutableTrie.insert _ _)).symm
    rw [filterMap_cons_toList, exec_append, applyAccounts, hfirst, ih]

variable (accounts db) in
theorem stateTrieWithDb_clean
    (hfree : CollisionFree (hashedBytes (finalState (stateTrieWithDb accounts ∅ db)))) :
    ∃ T, stateTrieWithDb accounts ∅ db = .ok () T := by
  have hrun : stateTrieWithDb accounts ∅ db = exec (accountOps accounts ∅ db) (new db) := by
    rw [stateTrieWithDb, applyAccounts_clean, accountOps]
  rw [hrun] at hfree ⊢
  obtain ⟨T, hT, -⟩ := (models_new _ db).exec hfree (emptyString_mem_hashedBytes _)
    (accountOps accounts ∅ db) (sound_of_later rfl (later_exec _ _) subset_rfl)
  exact ⟨T, hT⟩

end

/-! ## The fields of a leaf -/

variable (state : AccountState) (storageRoot : H256)

theorem length_accountItems (r : H256) :
    (accountItems state r).length = if state.vm = .zvm then 5 else 4 := by
  unfold accountItems
  split
  · rfl
  · rfl

theorem isItem_accountItem : ∀ e ∈ (accountItems state storageRoot).map stringItem, IsItem e := by
  intro e he
  obtain ⟨d, -, rfl⟩ := mem_map.mp he
  exact isItem_stringItem d

theorem account_listItem_fits :
    (listItem ((accountItems state storageRoot).map stringItem).flatten).length < usizeBound := by
  have hlen := length_encodeAccountRlp_le state storageRoot
  rw [encodeAccountRlp_eq] at hlen
  unfold usizeBound
  omega

theorem itemCount_encodeAccountRlp : itemCount (encodeAccountRlp state storageRoot) =
      .ok (accountItems state storageRoot).length := by
  rw [encodeAccountRlp_eq, itemCount_listItem (isItem_accountItem state storageRoot)
    (account_listItem_fits state storageRoot), length_map]

variable {state : AccountState} {d : Bytes} {storageRoot : H256} {n : Nat}

section

variable (h : (accountItems state storageRoot)[n]? = some d)

include h

theorem itemAt_encodeAccountRlp :
    itemAt (encodeAccountRlp state storageRoot) n = .ok (stringItem d) := by
  rw [encodeAccountRlp_eq]
  refine itemAt_listItem (isItem_accountItem state storageRoot)
    (account_listItem_fits state storageRoot) ?_
  rw [getElem?_map, h]
  rfl

theorem asBytes_accountItem : asBytes (stringItem d) = .ok d := by
  have hle := length_accountItem_le (mem_of_getElem? h)
  refine asBytes_stringItem ?_
  unfold usizeBound
  omega

theorem valAt_accountItem : valAt (encodeAccountRlp state storageRoot) n = .ok d := by
  unfold valAt
  rw [itemAt_encodeAccountRlp h, ok_bind, asBytes_accountItem h]

end

theorem valAt_encodeAccountRlp (state : AccountState) (storageRoot : H256) :
    valAt (encodeAccountRlp state storageRoot) 2 = .ok storageRoot.toBytes :=
  valAt_accountItem rfl

theorem encodeAccountRlp_inj {r r' : H256}
    (h : encodeAccountRlp state r = encodeAccountRlp state r') : r = r' := by
  have hval := valAt_encodeAccountRlp state r
  rw [h, valAt_encodeAccountRlp] at hval
  exact H256.toBytes_injective (Except.ok.inj hval).symm

end ZbxChain.Mpt
