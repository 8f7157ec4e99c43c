import ZbxChain.Trie.Abstraction
import ZbxChain.Trie.MutableTrie

/-!
# The trie's node store

`insert_node` and `delete_node` only add entries `(keccak256 e, e)` to the cache
(`grows_insertNode`, `grows_deleteNode`). Over a set `S` of byte strings on which
the hash does not collide and that contains everything cached, an entry once
readable stays readable (`Held.mono`), a stored node is read back (`storeNode_spec`)
and references resolve to their nodes (`resolve_refOf`).
-/

namespace ZbxChain.MutableTrie

open NibbleTree List

variable {DB : Type}

def Grows (T T' : MutableTrie DB) : Prop :=
  ∃ new : List (H256 × Bytes), T' = { T with cache := new ++ T.cache } ∧
    ∀ x ∈ new, x.1 = keccak256 x.2

theorem Grows.refl (T : MutableTrie DB) : Grows T T := ⟨[], rfl, by simp⟩

theorem Grows.trans {T₁ T₂ T₃ : MutableTrie DB} (h : Grows T₁ T₂) (h' : Grows T₂ T₃) :
    Grows T₁ T₃ := by
  obtain ⟨new, rfl, hnew⟩ := h
  obtain ⟨new', rfl, hnew'⟩ := h'
  refine ⟨new' ++ new, by simp, ?_⟩
  intro x hx
  rcases mem_append.mp hx with hx | hx
  · exact hnew' x hx
  · exact hnew x hx

theorem grows_cacheNode (T : MutableTrie DB) (e : Bytes) : Grows T (T.cacheNode e) :=
  ⟨[(keccak256 e, e)], rfl, by simp⟩

/-! ## Every method only adds to the cache -/

variable (node : TrieNode)

theorem storeNode_run (T : MutableTrie DB) :
    storeNode node T = if node.encode.length < 32 then .ok (.inline node) T
      else .ok (.hash (keccak256 node.encode)) (T.cacheNode node.encode) := by
  unfold storeNode
  split <;> rfl

theorem extends_storeNode : Extends Grows (storeNode node : TrieM DB NodeRef) := by
  intro T
  rw [storeNode_run]
  split
  · exact Grows.refl T
  · exact grows_cacheNode T _

theorem extends_resolveM [TrieDB DB] (r : NodeRef) :
    Extends Grows (resolveM r : TrieM DB TrieNode) := by
  intro T
  unfold resolveM
  split <;> exact Grows.refl T

variable {α : Type}

theorem extends_pure (a : α) : Extends Grows (pure a : TrieM DB α) :=
  Extends.pure Grows.refl a

theorem extends_throw (e : Fault TrieError) : Extends Grows (throw e : TrieM DB α) :=
  Extends.throw Grows.refl e

theorem extends_bind {β : Type} {x : TrieM DB α} {f : α → TrieM DB β} (hx : Extends Grows x)
    (hf : ∀ a, Extends Grows (f a)) : Extends Grows (x >>= f) :=
  Extends.bind (R := Grows) (fun _ _ _ => Grows.trans) hx hf

theorem extends_placeLeaf (fan : NodeFan) (rest : Nibbles) (value : Bytes) :
    Extends Grows (placeLeaf fan rest value : TrieM DB NodeFan) := by
  cases rest with
  | nil => exact extends_pure _
  | cons a rest => exact extends_bind (extends_storeNode _) fun _ => extends_pure _

variable (path : Nibbles)

theorem extends_wrapBranch (fan : NodeFan) :
    Extends Grows (wrapBranch path fan : TrieM DB TrieNode) := by
  cases path with
  | nil => exact extends_pure _
  | cons a path => exact extends_bind (extends_storeNode _) fun _ => extends_pure _

theorem extends_insertAtLeaf (oldVal : Bytes) (keyRemaining : Nibbles) (value : Bytes) :
    Extends Grows (insertAtLeaf path oldVal keyRemaining value : TrieM DB _) := by
  unfold insertAtLeaf
  dsimp only
  split
  · exact extends_pure _
  · refine extends_bind (extends_placeLeaf _ _ _) fun _ => ?_
    exact extends_bind (extends_placeLeaf _ _ _) fun _ => extends_wrapBranch _ _

theorem extends_splitExtension (child : NodeRef) (keyRemaining : Nibbles) (value : Bytes) :
    Extends Grows (splitExtension path child keyRemaining value : TrieM DB TrieNode) := by
  unfold splitExtension
  dsimp only
  split
  · exact extends_throw _
  · next nibble rest _ =>
    refine extends_bind ?_ fun _ =>
      extends_bind (extends_placeLeaf _ _ _) fun _ => extends_wrapBranch _ _
    cases rest with
    | nil => exact extends_pure _
    | cons a rest => exact extends_storeNode _

theorem extends_mergePath (node : TrieNode) :
    Extends Grows (mergePath path node : TrieM DB TrieNode) := by
  cases node with
  | empty | leaf | extension => exact extends_pure _
  | branch children value => exact extends_bind (extends_storeNode _) fun _ => extends_pure _

theorem extends_storeChild : Extends Grows (storeChild node : TrieM DB NodeRef) := by
  unfold storeChild
  split
  · exact extends_pure _
  · exact extends_storeNode _

variable [TrieDB DB]

theorem extends_maybeCollapseBranch (children : Nibble → NodeRef) (value : Option Bytes) :
    Extends Grows (maybeCollapseBranch children value : TrieM DB TrieNode) := by
  unfold maybeCollapseBranch
  split
  · exact extends_pure _
  · exact extends_pure _
  · exact extends_bind (extends_resolveM _) fun _ => extends_mergePath _ _
  · exact extends_pure _

variable (fuel : Nat)

theorem grows_insertNode (node : TrieNode) (key : Nibbles) (depth : Nat) (value : Bytes) :
    Extends Grows (insertNode fuel node key depth value : TrieM DB TrieNode) := by
  induction fuel generalizing node depth with
  | zero => exact extends_throw _
  | succ fuel ih =>
    cases node with
    | empty => exact extends_pure _
    | leaf path oldVal => exact extends_insertAtLeaf _ _ _ _
    | extension path child =>
      simp only [insertNode]
      split
      · refine extends_bind (extends_resolveM _) fun _ => extends_bind (ih _ _) fun _ => ?_
        exact extends_bind (extends_storeNode _) fun _ => extends_pure _
      · exact extends_splitExtension _ _ _ _
    | branch children branchVal =>
      simp only [insertNode]
      split
      · exact extends_pure _
      split
      · exact extends_throw _
      · refine extends_bind (extends_resolveM _) fun _ => extends_bind (ih _ _) fun _ => ?_
        exact extends_bind (extends_storeNode _) fun _ => extends_pure _

theorem grows_deleteNode (node : TrieNode) (key : Nibbles) (depth : Nat) :
    Extends Grows (deleteNode fuel node key depth : TrieM DB (TrieNode × Bool)) := by
  induction fuel generalizing node depth with
  | zero => exact extends_throw _
  | succ fuel ih =>
    cases node with
    | empty => exact extends_pure _
    | leaf path value =>
      simp only [deleteNode]
      split <;> exact extends_pure _
    | extension path child =>
      simp only [deleteNode]
      split
      · refine extends_bind (extends_resolveM _) fun _ => extends_bind (ih _ _) fun r => ?_
        split
        · exact extends_bind (extends_mergePath _ _) fun _ => extends_pure _
        · exact extends_pure _
      · exact extends_pure _
    | branch children branchVal =>
      simp only [deleteNode]
      split
      · split
        · exact extends_bind (extends_maybeCollapseBranch _ _) fun _ => extends_pure _
        · exact extends_pure _
      split
      · exact extends_throw _
      refine extends_bind (extends_resolveM _) fun _ => extends_bind (ih _ _) fun r => ?_
      split
      · refine extends_bind (extends_storeChild _) fun _ => ?_
        exact extends_bind (extends_maybeCollapseBranch _ _) fun _ => extends_pure _
      · exact extends_pure _

/-! ## Reading back -/

/-- Everything cached is content-addressed and lies in `S`. -/
def Sound (S : Set Bytes) (T : MutableTrie DB) : Prop :=
  ∀ x ∈ T.cache, x.1 = keccak256 x.2 ∧ x.2 ∈ S

omit [TrieDB DB] in
theorem Sound.of_grows {S : Set Bytes} {T T' : MutableTrie DB} (h : Sound S T')
    (hg : Grows T T') : Sound S T := by
  obtain ⟨new, rfl, -⟩ := hg
  exact fun x hx => h x (mem_append_right _ hx)

/-- `e` lies in `S` and is read back under its hash. -/
def Held (S : Set Bytes) (T : MutableTrie DB) (e : Bytes) : Prop :=
  e ∈ S ∧ T.nodeBytes (keccak256 e) = some e

/-- The nodes that `t` links below its root are held. -/
def Closed (S : Set Bytes) (T : MutableTrie DB) (t : NibbleTree) : Prop :=
  ∀ e, Linked t e → Held S T e

def RefHeld (S : Set Bytes) (T : MutableTrie DB) (t : NibbleTree) : Prop :=
  (32 ≤ (bytes t).length → Held S T (bytes t)) ∧ Closed S T t

variable {S : Set Bytes} (hS : CollisionFree S) {e : Bytes} {T T' : MutableTrie DB} {t : NibbleTree}

theorem held_cacheNode (hT : Sound S (T.cacheNode e)) : Held S (T.cacheNode e) e := by
  refine ⟨(hT _ (mem_cons_self)).2, ?_⟩
  simp [nodeBytes, cacheNode]

theorem closed_nil (T : MutableTrie DB) : Closed S T .nil :=
  fun e h => absurd h (not_linked_nil e)

theorem RefHeld.nil (T : MutableTrie DB) : RefHeld S T .nil :=
  ⟨fun h => absurd h (by decide), closed_nil T⟩

include hS

omit [TrieDB DB] in
theorem lookup_cache (hT : Sound S T) {e' : Bytes} (he : e ∈ S)
    (h : T.cache.lookup (keccak256 e) = some e') : e' = e := by
  obtain ⟨newer, older, hcache, -⟩ := lookup_eq_some_iff.mp h
  have hmem : (keccak256 e, e') ∈ T.cache := by rw [hcache]; simp
  obtain ⟨hkey, he'⟩ := hT _ hmem
  exact (hS.eq he he' hkey).symm

theorem Held.mono (hT' : Sound S T') (hg : Grows T T') (h : Held S T e) : Held S T' e := by
  refine ⟨h.1, ?_⟩
  cases hl : T'.cache.lookup (keccak256 e) with
  | some e' =>
    rw [nodeBytes, hl, lookup_cache hS hT' h.1 hl]
  | none =>
    obtain ⟨new, rfl, -⟩ := hg
    have hread := h.2
    rw [lookup_append, Option.or_eq_none_iff] at hl
    simp only [nodeBytes, hl.2] at hread
    simp only [nodeBytes, lookup_append, hl.1, hl.2, Option.none_or]
    exact hread

theorem Closed.mono (hT' : Sound S T') (hg : Grows T T') (h : Closed S T t) : Closed S T' t :=
  fun e he => (h e he).mono hS hT' hg

theorem RefHeld.mono (hT' : Sound S T') (hg : Grows T T') (h : RefHeld S T t) : RefHeld S T' t :=
  ⟨fun hl => (h.1 hl).mono hS hT' hg, h.2.mono hS hT' hg⟩

theorem storeNode_spec (hne : t ≠ .nil) (hclosed : Closed S T t)
    (hT : Sound S (finalState (storeNode (toNode t) T))) :
    ∃ T', storeNode (toNode t) T = .ok (refOf (toNode t)) T' ∧ Grows T T' ∧ RefHeld S T' t := by
  have hgrows : Grows T (finalState (storeNode (toNode t) T)) := extends_storeNode _ T
  rw [refOf_of_ne_empty (toNode_ne_empty hne)]
  rw [storeNode_run] at hT hgrows ⊢
  split
  · next hshort =>
    refine ⟨T, rfl, Grows.refl T, ?_, hclosed⟩
    intro hlong
    exact absurd hshort (Nat.not_lt.mpr hlong)
  · next hlong =>
    rw [if_neg hlong] at hT hgrows
    refine ⟨_, rfl, hgrows, ?_, hclosed.mono hS hT hgrows⟩
    exact fun _ => held_cacheNode hT

variable (h80 : [0x80] ∈ S)

include h80

theorem keccak256_ne_emptyRoot (he : e ∈ S) (hlong : 1 < e.length) : keccak256 e ≠ emptyRoot := by
  intro h
  rw [← keccak256_emptyString] at h
  have := hS.eq he h80 h
  rw [this] at hlong
  simp at hlong

theorem resolve_refOf_of_held (hfits : Fits t) (h : 32 ≤ (bytes t).length → Held S T (bytes t)) :
    T.resolve (refOf (toNode t)) = .ok (toNode t) := by
  by_cases hnil : t = .nil
  · subst hnil
    rfl
  rw [refOf_of_ne_empty (toNode_ne_empty hnil)]
  split
  · rfl
  · next hlong =>
    obtain ⟨hmem, hread⟩ := h (Nat.not_lt.mp hlong)
    have hne := keccak256_ne_emptyRoot hS h80 hmem (by
      have := Nat.not_lt.mp hlong
      unfold bytes
      omega)
    have hdec := decode_toNode hfits
    unfold bytes at hread hne hdec
    simp only [resolve, if_neg hne, hread, hdec]

theorem resolve_refOf (hfits : Fits t) (h : RefHeld S T t) :
    T.resolve (refOf (toNode t)) = .ok (toNode t) :=
  resolve_refOf_of_held hS h80 hfits h.1

theorem resolveM_refOf (hfits : Fits t) (h : RefHeld S T t) :
    resolveM (refOf (toNode t)) T = .ok (toNode t) T := by
  simp only [resolveM, resolve_refOf hS h80 hfits h]

end ZbxChain.MutableTrie
