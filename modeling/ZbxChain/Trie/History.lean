import ZbxChain.Trie.Deletion

/-!
# Histories of insertions and deletions

A history is a list of insertions of non-empty values and of deletions, run on an empty trie. The
map of a history is what the operations do to a finite map. The hash is assumed not to collide on
the strings that the run hashed (`hashedBytes`), a finite set.
-/

namespace ZbxChain

open Nibbles Radix List

/-- An operation on a trie. Keys and values are of lengths that a 64-bit machine can
address. -/
inductive TrieOp
  | insert (key value : Bytes) (hne : value ≠ []) (hsize : 2 * key.length + value.length < 2 ^ 62)
  | delete (key : Bytes)

namespace TrieOp

variable {DB : Type} [TrieDB DB]

def run (op : TrieOp) : TrieM DB (Option Bool) :=
  match op with
  | .insert key value _ _ => do
    MutableTrie.insert key value
    return none
  | .delete key => do
    let removed ← MutableTrie.delete key
    return some removed

def runAll : List TrieOp → MutableTrie DB →
    List (Except (Fault TrieError) (Option Bool)) × MutableTrie DB
  | [], T => ([], T)
  | op :: ops, T =>
    match op.run T with
    | .ok reply T' =>
      let (replies, T'') := runAll ops T'
      (.ok reply :: replies, T'')
    | .error e T' =>
      let (replies, T'') := runAll ops T'
      (.error e :: replies, T'')

def exec : List TrieOp → TrieM DB Unit
  | [] => pure ()
  | op :: ops => do
    let _ ← op.run
    exec ops

def onMap (op : TrieOp) (m : Bytes → Option Bytes) : Bytes → Option Bytes :=
  match op with
  | .insert key value _ _ => Function.update m key (some value)
  | .delete key => Function.update m key none

def replyOn (op : TrieOp) (m : Bytes → Option Bytes) : Option Bool :=
  match op with
  | .insert .. => none
  | .delete key => some (m key).isSome

def mapAfter (ops : List TrieOp) (m : Bytes → Option Bytes) : Bytes → Option Bytes :=
  ops.foldl (fun m op => op.onMap m) m

def repliesOn : List TrieOp → (Bytes → Option Bytes) → List (Option Bool)
  | [], _ => []
  | op :: ops, m => op.replyOn m :: repliesOn ops (op.onMap m)

end TrieOp

namespace MutableTrie

open NibbleTree

variable {DB : Type}

/-- The byte strings that the trie hashed, and the one whose hash is the empty root. -/
def hashedBytes (T : MutableTrie DB) : Set Bytes :=
  {e | e ∈ [0x80] :: T.cache.map Prod.snd}

def rootHash (t : NibbleTree) : H256 :=
  match t with
  | .nil => emptyRoot
  | t => keccak256 (bytes t)

variable {t : NibbleTree}

theorem rootHash_of_ne_nil (h : t ≠ .nil) : rootHash t = keccak256 (bytes t) := by
  cases t with
  | nil => exact absurd rfl h
  | leaf | ext | branch => rfl

theorem one_lt_length_bytes (h : t ≠ .nil) : 1 < (bytes t).length := by
  have hlist : ∀ {e : Bytes} {items : List Bytes}, e ∈ items → Rlp.IsItem e →
      1 < (listItem items.flatten).length := fun hmem he =>
    Nat.lt_of_le_of_lt (length_pos_iff.mpr he.1) (length_lt_listItem hmem)
  unfold bytes
  cases t with
  | nil => exact absurd rfl h
  | leaf p v =>
    rw [toNode, TrieNode.encode_leaf]
    exact hlist (e := RlpStream.stringItem v) (by simp) (Rlp.isItem_stringItem v)
  | ext p c =>
    rw [toNode, TrieNode.encode_extension]
    exact hlist (e := (refOf (toNode c)).item) (by simp) (isItem_refOf _)
  | branch cs v =>
    rw [toNode, TrieNode.encode_branch]
    exact hlist (e := RlpStream.stringItem (v.getD [])) (by simp) (Rlp.isItem_stringItem _)

def Later (T T' : MutableTrie DB) : Prop :=
  T'.db = T.db ∧ ∃ new : List (H256 × Bytes), T'.cache = new ++ T.cache ∧
    ∀ x ∈ new, x.1 = keccak256 x.2

theorem Later.refl (T : MutableTrie DB) : Later T T := ⟨rfl, [], rfl, by simp⟩

theorem Later.trans {T₁ T₂ T₃ : MutableTrie DB} (h : Later T₁ T₂) (h' : Later T₂ T₃) :
    Later T₁ T₃ := by
  obtain ⟨hdb, new, hcache, hnew⟩ := h
  obtain ⟨hdb', new', hcache', hnew'⟩ := h'
  refine ⟨hdb'.trans hdb, new' ++ new, by rw [hcache', hcache, append_assoc], ?_⟩
  intro x hx
  rcases mem_append.mp hx with hx | hx
  · exact hnew' x hx
  · exact hnew x hx

theorem Grows.later {T T' : MutableTrie DB} (h : Grows T T') : Later T T' := by
  obtain ⟨new, rfl, hnew⟩ := h
  exact ⟨rfl, new, rfl, hnew⟩

variable {S : Set Bytes} {T : MutableTrie DB}

theorem Sound.of_later {T T' : MutableTrie DB} (h : Sound S T') (hl : Later T T') : Sound S T := by
  obtain ⟨-, new, hcache, -⟩ := hl
  exact fun x hx => h x (by rw [hcache]; exact mem_append_right _ hx)

variable {α : Type}

theorem later_bind {β : Type} {x : TrieM DB α} {f : α → TrieM DB β} (hx : Extends Later x)
    (hf : ∀ a, Extends Later (f a)) : Extends Later (x >>= f) :=
  Extends.bind (R := Later) (fun _ _ _ => Later.trans) hx hf

theorem later_pure (a : α) : Extends Later (pure a : TrieM DB α) := Later.refl

theorem extends_commitRoot (node : TrieNode) : Extends Grows (commitRoot node : TrieM DB H256) := by
  intro T
  unfold commitRoot
  split
  · exact Grows.refl T
  · exact grows_cacheNode T _

theorem later_setRoot (h : H256) : Extends Later (setRoot h : TrieM DB Unit) :=
  fun T => ⟨rfl, [], rfl, by simp⟩

theorem later_finishDelete (node : TrieNode) (removed : Bool) :
    Extends Later (if removed = true then do
      let h ← commitRoot node
      setRoot h
      return true
    else return false : TrieM DB Bool) := by
  cases removed with
  | false => exact later_pure _
  | true =>
    refine later_bind (fun T => (extends_commitRoot _ T).later) fun _ => ?_
    exact later_bind (later_setRoot _) fun _ => later_pure _

theorem Sound.of_later_bind {β : Type} {x : TrieM DB α} {f : α → TrieM DB β}
    (hf : ∀ a, Extends Later (f a)) (h : Sound S (finalState ((x >>= f) T))) :
    Sound S (finalState (x T)) := by
  cases hx : x T with
  | ok a T₁ =>
    rw [estate_bind_ok hx] at h
    exact h.of_later (hf a T₁)
  | error e T₁ =>
    rw [estate_bind_error hx] at h
    exact h

theorem commitRoot_run {node : TrieNode} (h : node ≠ .empty) (T : MutableTrie DB) :
    commitRoot node T = .ok (keccak256 node.encode) (T.cacheNode node.encode) := by
  cases node with
  | empty => exact absurd rfl h
  | leaf | extension | branch => rfl

variable [TrieDB DB]

structure StoresTree (S : Set Bytes) (T : MutableTrie DB) (t : NibbleTree) : Prop where
  canonical : Canonical t
  fits : Fits t
  closed : Closed S T t
  root : T.root = rootHash t
  held : t ≠ .nil → Held S T (bytes t)

/-- The trie stores the tree `t`, which has no empty values. -/
structure Represents (S : Set Bytes) (T : MutableTrie DB) (t : NibbleTree) : Prop where
  canonical : Canonical t
  sized : Sized t
  closed : Closed S T t
  root : T.root = rootHash t
  held : t ≠ .nil → Held S T (bytes t)

theorem Represents.storesTree (h : Represents S T t) : StoresTree S T t :=
  ⟨h.canonical, h.sized.fits h.canonical, h.closed, h.root, h.held⟩

theorem StoresTree.represents (h : StoresTree S T t) (hsized : Sized t) : Represents S T t :=
  ⟨h.canonical, hsized, h.closed, h.root, h.held⟩

theorem storesTree_new (S : Set Bytes) (db : DB) : StoresTree S (new db) .nil where
  canonical := .nil
  fits := trivial
  closed := closed_nil _
  root := rfl
  held := fun h => absurd rfl h

theorem represents_new (S : Set Bytes) (db : DB) : Represents S (new db) .nil :=
  (storesTree_new S db).represents (by simp [Sized])

theorem later_insert (key value : Bytes) : Extends Later (insert key value : TrieM DB Unit) := by
  refine later_bind ?_ fun _ => later_bind ?_ fun _ => later_bind ?_ fun _ => later_setRoot _
  · intro T
    unfold rootNode
    split
    · exact Later.refl T
    · exact (extends_resolveM _ T).later
  · exact fun T => (grows_insertNode _ _ _ _ _ T).later
  · exact fun T => (extends_commitRoot _ T).later

theorem later_delete (key : Bytes) : Extends Later (delete key : TrieM DB Bool) := by
  intro T
  unfold delete
  split
  · exact Later.refl T
  refine later_bind (fun T => (extends_resolveM _ T).later) (fun _ => ?_) T
  refine later_bind (fun T => (grows_deleteNode _ _ _ _ T).later) ?_
  rintro ⟨node, removed⟩
  exact later_finishDelete node removed

/-! ## One operation -/

variable {S : Set Bytes} (hS : CollisionFree S) (h80 : [0x80] ∈ S) {T : MutableTrie DB}
  {t : NibbleTree}

include hS

theorem Represents.mono {T' : MutableTrie DB} (h : Represents S T t) (hT' : Sound S T')
    (hg : Grows T T') : Represents S T' t where
  canonical := h.canonical
  sized := h.sized
  closed := h.closed.mono hS hT' hg
  root := by
    obtain ⟨new, rfl, -⟩ := hg
    exact h.root
  held := fun hne => (h.held hne).mono hS hT' hg

theorem commitRoot_storesTree (hcanon : Canonical t) (hfits : Fits t) (hclosed : Closed S T t)
    (hT : Sound S (finalState ((commitRoot (toNode t) >>= setRoot) T))) :
    ∃ T', (commitRoot (toNode t) >>= setRoot) T = .ok () T' ∧ StoresTree S T' t := by
  by_cases hnil : t = .nil
  · subst hnil
    exact ⟨_, rfl, ⟨hcanon, hfits, closed_nil _, rfl, fun h => absurd rfl h⟩⟩
  rw [estate_bind_ok (commitRoot_run (toNode_ne_empty hnil) T)] at hT ⊢
  have hsound : Sound S (T.cacheNode (bytes t)) := hT
  have hgrown : Closed S (T.cacheNode (bytes t)) t :=
    hclosed.mono hS hsound (grows_cacheNode T _)
  exact ⟨_, rfl, ⟨hcanon, hfits, hgrown, (rootHash_of_ne_nil hnil).symm,
    fun _ => held_cacheNode hsound⟩⟩

theorem commitRoot_represents (hcanon : Canonical t) (hsized : Sized t) (hclosed : Closed S T t)
    (hT : Sound S (finalState ((commitRoot (toNode t) >>= setRoot) T))) :
    ∃ T', (commitRoot (toNode t) >>= setRoot) T = .ok () T' ∧ Represents S T' t := by
  obtain ⟨T', hrun, hstores⟩ := commitRoot_storesTree hS hcanon (hsized.fits hcanon) hclosed hT
  exact ⟨T', hrun, hstores.represents hsized⟩

include h80

theorem StoresTree.root_eq_emptyRoot_iff (h : StoresTree S T t) :
    T.root = emptyRoot ↔ t = .nil := by
  rw [h.root]
  constructor
  · intro hroot
    by_contra hne
    rw [rootHash_of_ne_nil hne] at hroot
    exact keccak256_ne_emptyRoot hS h80 (h.held hne).1 (one_lt_length_bytes hne) hroot
  · rintro rfl
    rfl

theorem StoresTree.resolve_root (h : StoresTree S T t) (hne : t ≠ .nil) :
    T.resolve (.hash T.root) = .ok (toNode t) := by
  have hroot : T.root ≠ emptyRoot := fun he => hne ((h.root_eq_emptyRoot_iff hS h80).mp he)
  have hread := (h.held hne).2
  rw [← rootHash_of_ne_nil hne, ← h.root] at hread
  simp only [resolve, if_neg hroot, hread]
  exact decode_toNode h.fits

theorem Represents.root_eq_emptyRoot_iff (h : Represents S T t) : T.root = emptyRoot ↔ t = .nil :=
  h.storesTree.root_eq_emptyRoot_iff hS h80

theorem Represents.resolve_root (h : Represents S T t) (hne : t ≠ .nil) :
    T.resolve (.hash T.root) = .ok (toNode t) :=
  h.storesTree.resolve_root hS h80 hne

theorem Represents.get (h : Represents S T t) (key : Bytes) :
    T.get key = .ok (lookup t (fromBytes key)) := by
  unfold MutableTrie.get
  by_cases hne : t = .nil
  · rw [if_pos ((h.root_eq_emptyRoot_iff hS h80).mpr hne), hne]
    rfl
  rw [if_neg fun he => hne ((h.root_eq_emptyRoot_iff hS h80).mp he)]
  exact getNode_spec hS h80 h.canonical (h.sized.fits h.canonical) h.closed
    (h.resolve_root hS h80 hne) (Nat.zero_le _) (Nat.lt_succ_self _)

theorem rootNode_run (h : StoresTree S T t) : rootNode T = .ok (toNode t) T := by
  unfold rootNode
  by_cases hne : t = .nil
  · rw [if_pos ((h.root_eq_emptyRoot_iff hS h80).mpr hne), hne]
    rfl
  · rw [if_neg fun he => hne ((h.root_eq_emptyRoot_iff hS h80).mp he)]
    simp only [resolveM, h.resolve_root hS h80 hne]

variable {key value : Bytes}

theorem insert_storesTree (h : StoresTree S T t)
    (hfits : Fits (Radix.insert t (fromBytes key) value))
    (hT : Sound S (finalState (insert key value T))) : ∃ T', insert key value T = .ok () T' ∧
      StoresTree S T' (Radix.insert t (fromBytes key) value) := by
  simp only [insert] at hT ⊢
  rw [estate_bind_ok (rootNode_run hS h80 h)] at hT ⊢
  have hsub := hT.of_later_bind fun _ =>
    later_bind (fun T => (extends_commitRoot _ T).later) fun _ => later_setRoot _
  obtain ⟨T₁, hrun₁, -, hclosed₁⟩ := insertNode_spec hS h80 h.canonical h.fits h.closed
    (Nat.zero_le _) (by simp) hsub
  rw [estate_bind_ok hrun₁] at hT ⊢
  exact commitRoot_storesTree hS (h.canonical.insert _ _) hfits hclosed₁ hT

theorem insert_represents (h : Represents S T t) (hv : value ≠ [])
    (hsize : 2 * key.length + value.length < 2 ^ 62)
    (hT : Sound S (finalState (insert key value T))) : ∃ T', insert key value T = .ok () T' ∧
      Represents S T' (Radix.insert t (fromBytes key) value) := by
  have hsized : Sized (Radix.insert t (fromBytes key) value) := by
    refine h.sized.insert hv ?_
    rw [length_fromBytes]
    exact hsize
  obtain ⟨T', hrun, hstores⟩ := insert_storesTree hS h80 h.storesTree
    (hsized.fits (h.canonical.insert _ _)) hT
  exact ⟨T', hrun, hstores.represents hsized⟩

theorem delete_represents (h : Represents S T t) (hT : Sound S (finalState (delete key T))) :
    ∃ T', delete key T = .ok (Radix.delete t (fromBytes key)).2 T' ∧
      Represents S T' (Radix.delete t (fromBytes key)).1 := by
  unfold delete at hT ⊢
  by_cases hnil : t = .nil
  · rw [if_pos ((h.root_eq_emptyRoot_iff hS h80).mpr hnil)]
    subst hnil
    exact ⟨T, rfl, h⟩
  rw [if_neg fun he => hnil ((h.root_eq_emptyRoot_iff hS h80).mp he)] at hT ⊢
  have hresolve : resolveM (.hash T.root) T = .ok (toNode t) T := by
    simp only [resolveM, h.resolve_root hS h80 hnil]
  rw [estate_bind_ok hresolve] at hT ⊢
  have hsub := hT.of_later_bind fun r : TrieNode × Bool => later_finishDelete r.1 r.2
  obtain ⟨T₁, hrun₁, hg₁, hclosed₁⟩ := deleteNode_spec hS h80 h.canonical h.sized h.closed
    (Nat.zero_le _) (by simp) hsub
  rw [estate_bind_ok hrun₁] at hT ⊢
  rw [hrun₁, finalState_ok] at hsub
  rw [drop_zero] at hT hclosed₁ ⊢
  cases hremoved : (Radix.delete t (fromBytes key)).2 with
  | false =>
    simp only [Bool.false_eq_true, if_false]
    -- nothing was removed, so the tree is the old one and only the cache has grown
    rw [Radix.delete_fst_of_absent hremoved]
    exact ⟨T₁, rfl, h.mono hS hsub hg₁⟩
  | true =>
    simp only [hremoved, if_true] at hT ⊢
    rw [← bind_assoc] at hT ⊢
    obtain ⟨T₂, hrun₂, hrep⟩ := commitRoot_represents hS (h.canonical.delete _)
      (h.sized.delete _) hclosed₁ (hT.of_later_bind fun _ => later_pure _)
    rw [estate_bind_ok hrun₂]
    exact ⟨T₂, rfl, hrep⟩

end MutableTrie

/-! ## Histories -/

namespace TrieOp

open MutableTrie NibbleTree

variable {DB : Type} [TrieDB DB]

/-- The map of the tree `t`, read at the nibbles of byte keys, is `m`; other words
have no value. -/
def MapOf (t : NibbleTree) (m : Bytes → Option Bytes) : Prop :=
  ∀ w v, lookup t w = some v ↔ ∃ key, w = fromBytes key ∧ m key = some v

/-- The trie stores a tree with the map `m`. -/
def Models (S : Set Bytes) (T : MutableTrie DB) (m : Bytes → Option Bytes) : Prop :=
  ∃ t, Represents S T t ∧ MapOf t m

variable {t : NibbleTree}

theorem MapOf.lookup {m : Bytes → Option Bytes} (hm : MapOf t m) (key : Bytes) :
    lookup t (fromBytes key) = m key := by
  apply Option.ext
  intro v
  rw [hm]
  constructor
  · rintro ⟨key', hkey, hv⟩
    rwa [fromBytes_injective hkey]
  · exact fun hv => ⟨key, rfl, hv⟩

theorem MapOf.update {s : NibbleTree} {m : Bytes → Option Bytes} (hm : MapOf t m) {key : Bytes}
    {o : Option Bytes}
    (hs : ∀ w, Radix.lookup s w = if w = fromBytes key then o else Radix.lookup t w) :
    MapOf s (Function.update m key o) := by
  intro w v
  rw [hs]
  by_cases hw : w = fromBytes key
  · rw [if_pos hw]
    constructor
    · exact fun hv => ⟨key, hw, by rw [Function.update_self, hv]⟩
    rintro ⟨key', hkey, hv⟩
    rw [fromBytes_injective (hkey.symm.trans hw), Function.update_self] at hv
    exact hv
  rw [if_neg hw, hm]
  have hother : ∀ key', w = fromBytes key' → Function.update m key o key' = m key' := by
    rintro key' rfl
    exact Function.update_of_ne (fun he => hw (by rw [he])) _ _
  refine exists_congr fun key' => and_congr_right fun hkey => ?_
  rw [hother key' hkey]

theorem MapOf.tree_eq {s : NibbleTree} {m : Bytes → Option Bytes} (hs : Canonical s)
    (ht : Canonical t) (hms : MapOf s m) (hmt : MapOf t m) : s = t := by
  apply hs.eq_of_lookup_eq ht
  funext w
  apply Option.ext
  intro v
  rw [hms, hmt]

theorem later_run (op : TrieOp) : Extends Later (op.run : TrieM DB (Option Bool)) := by
  cases op with
  | insert key value => exact later_bind (later_insert key value) fun _ => later_pure _
  | delete key => exact later_bind (later_delete key) fun _ => later_pure _

theorem later_runAll (ops : List TrieOp) (T : MutableTrie DB) : Later T (runAll ops T).2 := by
  induction ops generalizing T with
  | nil => exact Later.refl T
  | cons op ops ih =>
    have hop := later_run op T
    simp only [runAll]
    cases h : op.run T with
    | ok reply T' | error e T' =>
      rw [h] at hop
      exact Later.trans hop (ih T')

theorem later_exec (ops : List TrieOp) : Extends Later (exec ops : TrieM DB Unit) := by
  induction ops with
  | nil => exact later_pure _
  | cons op ops ih => exact later_bind (later_run op) fun _ => ih

theorem exec_append (ops₁ ops₂ : List TrieOp) :
    (exec (ops₁ ++ ops₂) : TrieM DB Unit) = (do
      exec ops₁
      exec ops₂) := by
  induction ops₁ with
  | nil => rfl
  | cons op ops₁ ih => simp only [cons_append, exec, ih, bind_assoc]

theorem models_new (S : Set Bytes) (db : DB) : Models S (new db) fun _ => none :=
  ⟨.nil, represents_new S db, by simp [MapOf]⟩

section

variable {S : Set Bytes} (hS : CollisionFree S) (h80 : [0x80] ∈ S) {T : MutableTrie DB}
  {m : Bytes → Option Bytes}

include hS h80

theorem Models.get (h : Models S T m) (key : Bytes) : T.get key = .ok (m key) := by
  obtain ⟨t, hrep, hm⟩ := h
  rw [hrep.get hS h80, hm.lookup]

theorem Models.run (h : Models S T m) (op : TrieOp) (hT : Sound S (finalState (op.run T))) :
    ∃ T', op.run T = .ok (op.replyOn m) T' ∧ Models S T' (op.onMap m) := by
  obtain ⟨t, hrep, hm⟩ := h
  cases op with
  | insert key value hne hsize =>
    have hins := hT.of_later_bind fun _ => later_pure _
    obtain ⟨T', hrun, hrep'⟩ := insert_represents hS h80 hrep hne hsize hins
    refine ⟨T', ?_, _, hrep', hm.update fun w => Radix.lookup_insert t _ w value⟩
    simp only [TrieOp.run]
    rw [estate_bind_ok hrun]
    rfl
  | delete key =>
    have hdel := hT.of_later_bind fun _ => later_pure _
    obtain ⟨T', hrun, hrep'⟩ := delete_represents hS h80 hrep hdel
    refine ⟨T', ?_, _, hrep', hm.update fun w => Radix.lookup_delete t _ w⟩
    simp only [TrieOp.run]
    rw [estate_bind_ok hrun, delete_snd, hm.lookup]
    rfl

theorem Models.runAll (h : Models S T m) (ops : List TrieOp)
    (hT : Sound S (TrieOp.runAll ops T).2) : (TrieOp.runAll ops T).1 = (repliesOn ops m).map .ok ∧
      Models S (TrieOp.runAll ops T).2 (mapAfter ops m) := by
  induction ops generalizing T m with
  | nil => exact ⟨rfl, h⟩
  | cons op ops ih =>
    have hstep : Sound S (finalState (op.run T)) := by
      simp only [TrieOp.runAll] at hT
      cases hop : op.run T with
      | ok reply T' | error e T' =>
        rw [hop] at hT
        exact hT.of_later (later_runAll ops T')
    obtain ⟨T', hrun, hmodels⟩ := h.run hS h80 op hstep
    simp only [TrieOp.runAll, hrun] at hT ⊢
    obtain ⟨hreplies, hfinal⟩ := ih hmodels hT
    exact ⟨by rw [hreplies]; rfl, hfinal⟩

theorem Models.exec (h : Models S T m) (ops : List TrieOp)
    (hT : Sound S (finalState (TrieOp.exec ops T))) :
    ∃ T', TrieOp.exec ops T = .ok () T' ∧ Models S T' (mapAfter ops m) := by
  induction ops generalizing T m with
  | nil => exact ⟨T, rfl, h⟩
  | cons op ops ih =>
    simp only [TrieOp.exec] at hT ⊢
    obtain ⟨T', hrun, hmodels⟩ := h.run hS h80 op (hT.of_later_bind fun _ => later_exec ops)
    rw [estate_bind_ok hrun] at hT ⊢
    exact ih hmodels hT

variable {T₁ T₂ : MutableTrie DB} {s t : NibbleTree}

theorem eq_of_root_eq (hs : Represents S T₁ s) (ht : Represents S T₂ t) (h : T₁.root = T₂.root) :
    s = t := by
  have hnil : s = .nil ↔ t = .nil := by
    rw [← hs.root_eq_emptyRoot_iff hS h80, ← ht.root_eq_emptyRoot_iff hS h80, h]
  by_cases hsn : s = .nil
  · rw [hsn, hnil.mp hsn]
  have htn : t ≠ .nil := fun htn => hsn (hnil.mpr htn)
  rw [hs.root, ht.root, rootHash_of_ne_nil hsn, rootHash_of_ne_nil htn] at h
  have hbytes := hS.eq (hs.held hsn).1 (ht.held htn).1 h
  have hfs := hs.sized.fits hs.canonical
  have hft := ht.sized.fits ht.canonical
  exact eq_of_toNode_eq hfs hft hS (fun e he => (hs.closed e he).1)
    (fun e he => (ht.closed e he).1) (toNode_eq_of_bytes_eq hfs hft hbytes)

theorem Models.root_eq_iff {m₁ m₂ : Bytes → Option Bytes} (h₁ : Models S T₁ m₁)
    (h₂ : Models S T₂ m₂) : T₁.root = T₂.root ↔ m₁ = m₂ := by
  obtain ⟨s, hs, hms⟩ := h₁
  obtain ⟨t, ht, hmt⟩ := h₂
  constructor
  · intro hroot
    have hst := eq_of_root_eq hS h80 hs ht hroot
    funext key
    rw [← hms.lookup, ← hmt.lookup, hst]
  · rintro rfl
    rw [hs.root, ht.root, hms.tree_eq hs.canonical ht.canonical hmt]

end

theorem sound_runAll_new (db : DB) (ops : List TrieOp) {S : Set Bytes}
    (hS : hashedBytes (runAll ops (new db)).2 ⊆ S) : Sound S (runAll ops (new db)).2 := by
  obtain ⟨-, added, hcache, hadded⟩ := later_runAll ops (new db)
  intro x hx
  refine ⟨hadded x ?_, hS ?_⟩
  · rw [hcache] at hx
    simpa [new] using hx
  · exact mem_cons_of_mem _ (mem_map_of_mem hx)

omit [TrieDB DB] in
theorem emptyString_mem_hashedBytes (T : MutableTrie DB) : [0x80] ∈ hashedBytes T :=
  mem_cons_self

/-- **The trie is the map.** After any history on an empty trie, whatever its database,
every deletion has replied whether its key was there and every key is answered as by
the map of the history. -/
theorem history_get (db : DB) (ops : List TrieOp)
    (hfree : CollisionFree (hashedBytes (runAll ops (new db)).2)) :
    (runAll ops (new db)).1 = (repliesOn ops fun _ => none).map .ok ∧
      ∀ key, (runAll ops (new db)).2.get key = .ok (mapAfter ops (fun _ => none) key) := by
  have h80 := emptyString_mem_hashedBytes (runAll ops (new db)).2
  obtain ⟨hreplies, hmodels⟩ := (models_new _ db).runAll hfree h80 ops
    (sound_runAll_new db ops subset_rfl)
  exact ⟨hreplies, fun key => hmodels.get hfree h80 key⟩

def prefixHistory : List TrieOp :=
  [.insert [0x12] [0x01] (by decide) (by decide),
   .insert [0x12, 0x34] [0x02] (by decide) (by decide), .delete [0x12], .delete [0x56]]

theorem history_get_prefixHistory :
    CollisionFree (hashedBytes (runAll prefixHistory (new (⟨[]⟩ : MemoryTrieDB))).2) ∧
      (runAll prefixHistory (new (⟨[]⟩ : MemoryTrieDB))).1 =
        [.ok none, .ok none, .ok (some true), .ok (some false)] ∧
      (runAll prefixHistory (new (⟨[]⟩ : MemoryTrieDB))).2.get [0x12, 0x34] =
        .ok (some [0x02]) := by
  have hfree : CollisionFree (hashedBytes (runAll prefixHistory (new (⟨[]⟩ : MemoryTrieDB))).2) :=
    collisionFree_of_nodup (by decide +kernel)
  obtain ⟨hreplies, hget⟩ := history_get (⟨[]⟩ : MemoryTrieDB) prefixHistory hfree
  exact ⟨hfree, hreplies, hget [0x12, 0x34]⟩

/-- **The root commits to the map.** Two histories end in the same root exactly when
they end in the same map. -/
theorem history_root_eq_iff (db₁ db₂ : DB) (ops₁ ops₂ : List TrieOp)
    (hfree : CollisionFree (hashedBytes (runAll ops₁ (new db₁)).2 ∪
      hashedBytes (runAll ops₂ (new db₂)).2)) :
    (runAll ops₁ (new db₁)).2.root = (runAll ops₂ (new db₂)).2.root ↔
      mapAfter ops₁ (fun _ => none) = mapAfter ops₂ (fun _ => none) := by
  have h80 : [0x80] ∈ hashedBytes (runAll ops₁ (new db₁)).2 ∪
      hashedBytes (runAll ops₂ (new db₂)).2 := .inl (emptyString_mem_hashedBytes _)
  have h₁ := ((models_new _ db₁).runAll hfree h80 ops₁
    (sound_runAll_new db₁ ops₁ Set.subset_union_left)).2
  have h₂ := ((models_new _ db₂).runAll hfree h80 ops₂
    (sound_runAll_new db₂ ops₂ Set.subset_union_right)).2
  exact h₁.root_eq_iff hfree h80 h₂

/-- Another way to the map of `prefixHistory`. -/
def detourHistory : List TrieOp :=
  [.insert [0x12, 0x34] [0x07] (by decide) (by decide),
   .insert [0x99] [0x08] (by decide) (by decide), .delete [0x99],
   .insert [0x12, 0x34] [0x02] (by decide) (by decide)]

theorem history_root_eq_detourHistory :
    CollisionFree (hashedBytes (runAll prefixHistory (new (⟨[]⟩ : MemoryTrieDB))).2 ∪
      hashedBytes (runAll detourHistory (new (⟨[]⟩ : MemoryTrieDB))).2) ∧
    (runAll prefixHistory (new (⟨[]⟩ : MemoryTrieDB))).2.root =
      (runAll detourHistory (new (⟨[]⟩ : MemoryTrieDB))).2.root := by
  have hfree : CollisionFree (hashedBytes (runAll prefixHistory (new (⟨[]⟩ : MemoryTrieDB))).2 ∪
      hashedBytes (runAll detourHistory (new (⟨[]⟩ : MemoryTrieDB))).2) := by
    have hlist : CollisionFree {e | e ∈
        ([0x80] :: (runAll prefixHistory (new (⟨[]⟩ : MemoryTrieDB))).2.cache.map Prod.snd) ++
        [0x80] :: (runAll detourHistory (new (⟨[]⟩ : MemoryTrieDB))).2.cache.map Prod.snd} :=
      collisionFree_of_nodup (by decide +kernel)
    exact hlist.mono fun e he => mem_append.mpr he
  have hmap : mapAfter prefixHistory (fun _ => none) = mapAfter detourHistory fun _ => none := by
    funext key
    simp only [mapAfter, prefixHistory, detourHistory, foldl_cons, foldl_nil, onMap,
      Function.update_apply]
    split_ifs <;> simp_all
  exact ⟨hfree, (history_root_eq_iff _ _ prefixHistory detourHistory hfree).mpr hmap⟩

end TrieOp

end ZbxChain
