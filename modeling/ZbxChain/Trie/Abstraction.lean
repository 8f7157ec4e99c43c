import ZbxChain.Trie.Node

/-!
# Trie nodes as encodings of radix trees

A radix tree over nibbles is stored as a graph of encoded nodes: `toNode` is the node of a tree and
`refOf` the reference by which a parent holds it.
-/

namespace ZbxChain

open TrieNode RlpStream Rlp NodeRef Nibbles List Radix

abbrev NibbleTree := Tree Nibble Bytes

namespace NibbleTree

def refOf (node : TrieNode) : NodeRef :=
  match node with
  | .empty => .empty
  | node => if node.encode.length < 32 then .inline node else .hash (keccak256 node.encode)

def toNode : NibbleTree → TrieNode
  | .nil => .empty
  | .leaf path value => .leaf path value
  | .ext path child => .extension path (refOf (toNode child))
  | .branch children value => .branch (fun i => refOf (toNode (children i))) value

def bytes (t : NibbleTree) : Bytes := (toNode t).encode

variable {items : List Bytes} {fuel : Nat} {s t : NibbleTree} {path : Nibbles}
  {value : Option Bytes} {S : Set Bytes} {node : TrieNode}

theorem toNode_ne_empty (h : t ≠ .nil) : toNode t ≠ .empty := by
  cases t with
  | nil => exact absurd rfl h
  | leaf path value | ext path child | branch children value => simp [toNode]

theorem refOf_of_ne_empty (h : node ≠ .empty) : refOf node =
      if node.encode.length < 32 then .inline node else .hash (keccak256 node.encode) := by
  cases node with
  | empty => exact absurd rfl h
  | leaf path value => rfl
  | extension path child => rfl
  | branch children value => rfl

/-! ## Sizes -/

/-- Paths and values whose encodings stay within the address space, and branch
values that are distinguishable from their absence. -/
def Fits : NibbleTree → Prop
  | .nil => True
  | .leaf path value => path.length + value.length < 2 ^ 62
  | .ext path child => path.length < 2 ^ 62 ∧ Fits child
  | .branch children value =>
    (∀ i, Fits (children i)) ∧ ∀ v, value = some v → v ≠ [] ∧ v.length < 2 ^ 62

theorem length_item_refOf_le (node : TrieNode) : (refOf node).item.length ≤ 41 := by
  by_cases h : node = .empty
  · subst h
    decide
  rw [refOf_of_ne_empty h]
  split
  · rw [item]
    omega
  · rw [item]
    simpa using (length_stringItem (keccak256 node.encode).toBytes).2

theorem length_flatten_map_le {ι : Type} {f : ι → Bytes} {m : Nat} (h : ∀ i, (f i).length ≤ m)
    (l : List ι) : (l.map f).flatten.length ≤ m * l.length := by
  induction l with
  | nil => simp
  | cons a l ih =>
    have ha := h a
    simp only [map_cons, flatten_cons, length_append, length_cons,
      Nat.mul_add, Nat.mul_one]
    omega

theorem length_two_le (path : Nibbles) (isLeaf : Bool) (second : Bytes) :
    (listItem [stringItem (encodeCompact path isLeaf), second].flatten).length ≤
      path.length + second.length + 19 := by
  have hlist := length_listItem [stringItem (encodeCompact path isLeaf), second].flatten
  have hstring := length_stringItem (encodeCompact path isLeaf)
  have hcompact := length_encodeCompact path isLeaf
  simp only [flatten_cons, flatten_nil, append_nil, length_append] at hlist ⊢
  omega

theorem Fits.length_bytes (h : Fits t) : (bytes t).length < usizeBound := by
  unfold bytes
  cases t with
  | nil => decide
  | leaf path value =>
    rw [toNode, encode_leaf]
    have htwo := length_two_le path true (stringItem value)
    have hvalue := length_stringItem value
    simp only [Fits] at h
    simp only [usizeBound]
    omega
  | ext path child =>
    rw [toNode, encode_extension]
    have htwo := length_two_le path false (refOf (toNode child)).item
    have hchild := length_item_refOf_le (toNode child)
    simp only [Fits] at h
    simp only [usizeBound]
    omega
  | branch children value =>
    rw [toNode, encode_branch]
    have h₀ := length_listItem ((finRange 16).map
      (fun i => (refOf (toNode (children i))).item) ++
        [stringItem (value.getD [])]).flatten
    have h₁ := length_flatten_map_le (fun i => length_item_refOf_le (toNode (children i)))
      (finRange 16)
    have h₂ := length_stringItem (value.getD [])
    have h₃ : (value.getD []).length < 2 ^ 62 := by
      cases value with
      | none => simp
      | some v => exact (h.2 v rfl).2
    simp only [flatten_append, flatten_cons, flatten_nil, append_nil,
      length_append, length_finRange] at h₀ h₁ ⊢
    simp only [usizeBound]
    omega

/-! ## Decoding -/

theorem encode_isList (h : node ≠ .empty) : ∃ content, node.encode = listItem content := by
  cases node with
  | empty => exact absurd rfl h
  | leaf path value => exact ⟨_, encode_leaf path value⟩
  | extension path child => exact ⟨_, encode_extension path child⟩
  | branch children value => exact ⟨_, encode_branch children value⟩

theorem refOf_eq_inline {n : TrieNode} (h : refOf node = .inline n) : n = node ∧ node ≠ .empty := by
  by_cases hne : node = .empty
  · subst hne
    cases h
  · rw [refOf_of_ne_empty hne] at h
    grind

theorem isItem_item {ref : NodeRef} (h : ∀ n, ref = .inline n → n ≠ .empty) : IsItem ref.item := by
  cases ref with
  | hash | empty =>
    rw [item]
    exact isItem_stringItem _
  | inline n =>
    obtain ⟨content, hc⟩ := encode_isList (h n rfl)
    rw [item, hc]
    exact isItem_listItem content

theorem isItem_refOf (node : TrieNode) : IsItem (refOf node).item :=
  isItem_item fun _ h => (refOf_eq_inline h).1 ▸ (refOf_eq_inline h).2

theorem decodeChild_item {decode : Bytes → TrieResult TrieNode} {ref : NodeRef}
    (h : ∀ n, ref = .inline n → n ≠ .empty)
    (hdec : ∀ n, ref = .inline n → decode n.encode = .ok n) (slot : String) :
    decodeChild decode slot ref.item = .ok ref := by
  cases ref with
  | empty =>
    have hfit : (stringItem []).length < usizeBound := by decide
    simp only [item, decodeChild, isList_stringItem,
      Bool.false_eq_true, if_false, asBytes_stringItem hfit, liftRlp, ok_bind,
      if_true, pure_eq_ok]
  | inline n =>
    obtain ⟨content, hc⟩ := encode_isList (h n rfl)
    have hlist : isList n.encode = true := by rw [hc]; exact isList_listItem content
    simp only [item, decodeChild, hlist, if_true, hdec n rfl, ok_bind, pure_eq_ok]
  | hash k =>
    have hbytes := length_stringItem k.toBytes
    rw [H256.length_toBytes] at hbytes
    have hfit : (stringItem k.toBytes).length < usizeBound := by
      simp only [usizeBound]
      omega
    have hne : k.toBytes ≠ [] := ne_nil_of_length_pos (by simp)
    simp only [item, decodeChild, isList_stringItem, Bool.false_eq_true, if_false,
      asBytes_stringItem hfit, liftRlp, ok_bind, if_neg hne, H256.length_toBytes,
      if_true, H256.ofBytes_toBytes, pure_eq_ok]

theorem decodeFuel_two {isLeaf : Bool} {second : Bytes} (hsecond : IsItem second)
    (hfit : (listItem [stringItem (encodeCompact path isLeaf), second].flatten).length <
      usizeBound) :
    decodeFuel (fuel + 1) (listItem [stringItem (encodeCompact path isLeaf), second].flatten) =
      if isLeaf then liftRlp (asBytes second) >>= fun value => .ok (.leaf path value)
      else decodeChild (decodeFuel fuel) "extension child" second >>= fun child =>
        .ok (.extension path child) := by
  have hitems : ∀ e ∈ [stringItem (encodeCompact path isLeaf), second], IsItem e := by
    simp [isItem_stringItem, hsecond]
  have hlen := flatten_fits hfit
  simp only [flatten_cons, flatten_nil, append_nil, length_append] at hlen
  have hpath := asBytes_stringItem (d := encodeCompact path isLeaf) (by omega)
  have h₀ := itemAt_listItem hitems hfit (n := 0) rfl
  have h₁ := itemAt_listItem hitems hfit (n := 1) rfl
  cases isLeaf <;> simp only [decodeFuel, itemCount_listItem hitems hfit, liftRlp, ok_bind,
    length_cons, length_nil, decodeTwo, valAt, h₀, h₁, hpath, decodeCompact_encodeCompact,
    Bool.false_eq_true, if_false, if_true] <;> rfl

theorem decodeFuel_branch {children : Nibble → NodeRef}
    (hfit : (branch children value).encode.length < usizeBound)
    (hchild : ∀ i n, children i = .inline n → n ≠ .empty) (hvalue : value ≠ some [])
    (hdec : ∀ i n, children i = .inline n → decodeFuel fuel n.encode = .ok n) :
    decodeFuel (fuel + 1) (branch children value).encode = .ok (.branch children value) := by
  rw [encode_branch] at hfit ⊢
  generalize hl : (finRange 16).map (fun i => (children i).item) ++
    [stringItem (value.getD [])] = items at hfit ⊢
  have hitems : ∀ e ∈ items, IsItem e := by
    intro e he
    rw [← hl] at he
    rcases mem_append.mp he with he | he
    · obtain ⟨i, -, rfl⟩ := mem_map.mp he
      exact isItem_item (hchild i)
    · rw [mem_singleton.mp he]
      exact isItem_stringItem _
  have hcount : items.length = 17 := by simp [← hl]
  have hlen := flatten_fits hfit
  have hlast : items[16]? = some (stringItem (value.getD [])) := by
    rw [← hl, getElem?_append_right (by simp)]
    simp
  have hslot : ∀ i : Nibble, decodeSlot (decodeFuel fuel)
      (listItem items.flatten) i = .ok (children i) := by
    intro i
    have hget : items[i.val]? = some (children i).item := by
      rw [← hl, getElem?_append_left (by simp)]
      simp
    simp only [decodeSlot, itemAt_listItem hitems hfit hget, liftRlp, ok_bind,
      decodeChild_item (hchild i) (hdec i)]
  have hstring : (stringItem (value.getD [])).length < usizeBound := by
    rw [← hl] at hlen
    simp only [flatten_append, flatten_cons, flatten_nil, append_nil,
      length_append] at hlen
    omega
  have hback : (if value.getD [] = [] then none else some (value.getD [])) = value := by
    cases value with
    | none => rfl
    | some v =>
      have hv : v ≠ [] := fun h => hvalue (by rw [h])
      simp [hv]
  have hchildren : (fun i : Nibble => ((finRange 16).map children).getD i .empty) = children := by
    funext i
    simp
  simp only [decodeFuel, itemCount_listItem hitems hfit, liftRlp, ok_bind,
    hcount, decodeSeventeen, mapM_ok hslot, valAt,
    itemAt_listItem hitems hfit hlast, asBytes_stringItem hstring, hback, hchildren,
    pure_eq_ok]

theorem succ_of_lt {n fuel : Nat} (h : n < fuel) : ∃ f, fuel = f + 1 := ⟨fuel - 1, by omega⟩

theorem length_lt_listItem {e : Bytes} (he : e ∈ items) :
    e.length < (listItem items.flatten).length := by
  have hle : e.length ≤ items.flatten.length := (sublist_flatten_of_mem he).length_le
  exact hle.trans_lt (length_listItem items.flatten).1

/-- A node whose inline children are well-formed nodes too, and whose branch values are
distinguishable from their absence. -/
inductive WellFormed : TrieNode → Prop
  | empty : WellFormed .empty
  | leaf (path : Nibbles) (value : Bytes) : WellFormed (.leaf path value)
  | extension (path : Nibbles) {child : NodeRef} (hne : ∀ n, child = .inline n → n ≠ .empty)
      (h : ∀ n, child = .inline n → WellFormed n) : WellFormed (.extension path child)
  | branch {children : Nibble → NodeRef} {value : Option Bytes}
      (hne : ∀ i n, children i = .inline n → n ≠ .empty) (hvalue : value ≠ some [])
      (h : ∀ i n, children i = .inline n → WellFormed n) : WellFormed (.branch children value)

theorem WellFormed.decodeFuel_encode (h : WellFormed node) (hfit : node.encode.length < usizeBound)
    (hfuel : node.encode.length < fuel) : decodeFuel fuel node.encode = .ok node := by
  induction fuel generalizing node with
  | zero => omega
  | succ fuel ih =>
    -- An inline child is a proper part of the list of its parent.
    have hpart : ∀ {items : List Bytes} {n : TrieNode}, node.encode = listItem items.flatten →
        n.encode ∈ items → WellFormed n → decodeFuel fuel n.encode = .ok n := by
      intro items n he hmem hn
      have hlt := length_lt_listItem hmem
      rw [← he] at hlt
      exact ih hn (by omega) (by omega)
    cases h with
    | empty => rfl
    | leaf path value =>
      rw [encode_leaf] at hfit ⊢
      have hlen := flatten_fits hfit
      simp only [flatten_cons, flatten_nil, append_nil, length_append] at hlen
      rw [decodeFuel_two (isItem_stringItem value) hfit, asBytes_stringItem (by omega)]
      rfl
    | extension path hne h =>
      have hdec : ∀ n, _ → _ := fun n hn =>
        hpart (encode_extension _ _) (by simp [hn, item]) (h n hn)
      rw [encode_extension] at hfit ⊢
      rw [decodeFuel_two (isItem_item hne) hfit, decodeChild_item hne hdec]
      rfl
    | branch hne hvalue h =>
      refine decodeFuel_branch hfit hne hvalue fun i n hn => ?_
      refine hpart (encode_branch _ _) (mem_append_left _ ?_) (h i n hn)
      exact mem_map.mpr ⟨i, mem_finRange i, by rw [hn, item]⟩

theorem decode_encode (h : WellFormed node) (hfit : node.encode.length < usizeBound) :
    decode node.encode = .ok node :=
  h.decodeFuel_encode hfit (Nat.lt_succ_self _)

theorem Fits.wellFormed (h : Fits t) : WellFormed (toNode t) := by
  induction t with
  | nil => exact .empty
  | leaf path value => exact .leaf path value
  | ext path child ih =>
    refine .extension path ?_ ?_ <;> rintro n hn <;> obtain ⟨rfl, hne⟩ := refOf_eq_inline hn
    · exact hne
    · exact ih h.2
  | branch children value ih =>
    refine .branch ?_ (fun hv => (h.2 [] hv).1 rfl) ?_ <;> rintro i n hn <;>
      obtain ⟨rfl, hne⟩ := refOf_eq_inline hn
    · exact hne
    · exact ih i (h.1 i)

theorem decode_toNode (h : Fits t) : decode (bytes t) = .ok (toNode t) :=
  decode_encode h.wellFormed h.length_bytes

theorem toNode_eq_of_bytes_eq (hs : Fits s) (ht : Fits t) (h : bytes s = bytes t) :
    toNode s = toNode t := by
  have hdec := decode_toNode hs
  rw [h, decode_toNode ht] at hdec
  exact (Except.ok.inj hdec).symm

/-! ## Linked nodes -/

/-- `e` is the encoding of a node below the root of `t` that its parent holds by
hash. -/
inductive Linked : NibbleTree → Bytes → Prop
  | extChild {path : Nibbles} {child : NibbleTree} (h : 32 ≤ (bytes child).length) :
      Linked (.ext path child) (bytes child)
  | extBelow {path : Nibbles} {child : NibbleTree} {e : Bytes} (h : Linked child e) :
      Linked (.ext path child) e
  | branchChild {children : Nibble → NibbleTree} {value : Option Bytes} {i : Nibble}
      (h : 32 ≤ (bytes (children i)).length) : Linked (.branch children value) (bytes (children i))
  | branchBelow {children : Nibble → NibbleTree} {value : Option Bytes} {i : Nibble} {e : Bytes}
      (h : Linked (children i) e) : Linked (.branch children value) e

theorem not_linked_nil (e : Bytes) : ¬ Linked .nil e := by
  intro h
  cases h

theorem not_linked_leaf (path : Nibbles) (value e : Bytes) : ¬ Linked (.leaf path value) e := by
  intro h
  cases h

theorem refOf_toNode_eq_empty_iff : refOf (toNode t) = .empty ↔ t = .nil := by
  constructor
  · intro h
    by_contra hne
    rw [refOf_of_ne_empty (toNode_ne_empty hne)] at h
    split at h <;> exact NodeRef.noConfusion h
  · rintro rfl
    rfl

theorem toNode_eq_of_refOf_eq (hs : Fits s) (ht : Fits t) (hS : CollisionFree S)
    (hsS : 32 ≤ (bytes s).length → bytes s ∈ S) (htS : 32 ≤ (bytes t).length → bytes t ∈ S)
    (h : refOf (toNode s) = refOf (toNode t)) : toNode s = toNode t := by
  by_cases hsn : s = .nil
  · have htn : t = .nil := by
      rw [← refOf_toNode_eq_empty_iff, ← h, refOf_toNode_eq_empty_iff]
      exact hsn
    rw [hsn, htn]
  have htn : t ≠ .nil := by
    intro htn
    rw [← refOf_toNode_eq_empty_iff, ← h, refOf_toNode_eq_empty_iff] at htn
    exact hsn htn
  rw [refOf_of_ne_empty (toNode_ne_empty hsn), refOf_of_ne_empty (toNode_ne_empty htn)] at h
  split at h <;> split at h
  · exact inline.inj h
  · exact NodeRef.noConfusion h
  · exact NodeRef.noConfusion h
  · next h₁ h₂ =>
    have hbytes := hS.eq (hsS (Nat.not_lt.mp h₁)) (htS (Nat.not_lt.mp h₂)) (hash.inj h)
    exact toNode_eq_of_bytes_eq hs ht hbytes

theorem eq_of_toNode_eq (hs : Fits s) (ht : Fits t) (hS : CollisionFree S)
    (hsS : ∀ e, Linked s e → e ∈ S) (htS : ∀ e, Linked t e → e ∈ S) (h : toNode s = toNode t) :
    s = t := by
  induction s generalizing t with
  | nil =>
    by_contra hne
    exact toNode_ne_empty (Ne.symm hne) h.symm
  | leaf path value =>
    cases t with
    | leaf path' value' =>
      obtain ⟨rfl, rfl⟩ := leaf.inj h
      rfl
    | nil | ext | branch => exact TrieNode.noConfusion h
  | ext path child ih =>
    cases t with
    | ext path' child' =>
      obtain ⟨rfl, hchild⟩ := extension.inj h
      have hnode := toNode_eq_of_refOf_eq hs.2 ht.2 hS (fun hl => hsS _ (.extChild hl))
        (fun hl => htS _ (.extChild hl)) hchild
      rw [ih hs.2 ht.2 (fun e he => hsS e (.extBelow he)) (fun e he => htS e (.extBelow he)) hnode]
    | nil | leaf | branch => exact TrieNode.noConfusion h
  | branch children value ih =>
    cases t with
    | branch children' value' =>
      obtain ⟨hchildren, rfl⟩ := branch.inj h
      have heq : children = children' := by
        funext i
        have hnode := toNode_eq_of_refOf_eq (hs.1 i) (ht.1 i) hS
          (fun hl => hsS _ (.branchChild hl)) (fun hl => htS _ (.branchChild hl))
          (congrFun hchildren i)
        exact ih i (hs.1 i) (ht.1 i) (fun e he => hsS e (.branchBelow he))
          (fun e he => htS e (.branchBelow he)) hnode
      rw [heq]
    | nil | leaf | ext => exact TrieNode.noConfusion h

/-! ## Sizes from the map -/

def Sized (t : NibbleTree) : Prop :=
  ∀ k v, lookup t k = some v → v ≠ [] ∧ k.length + v.length < 2 ^ 62

theorem Sized.ext {child : NibbleTree} (h : Sized (.ext path child)) : Sized child := by
  intro k v hk
  obtain ⟨hv, hlen⟩ := h (path ++ k) v (by rw [lookup_ext_append, hk])
  rw [length_append] at hlen
  exact ⟨hv, by omega⟩

theorem Sized.child {children : Nibble → NibbleTree} (h : Sized (.branch children value))
    (i : Nibble) : Sized (children i) := by
  intro k v hk
  obtain ⟨hv, hlen⟩ := h (i :: k) v hk
  rw [length_cons] at hlen
  exact ⟨hv, by omega⟩

theorem Sized.insert (h : Sized t) {k : Nibbles} {v : Bytes} (hv : v ≠ [])
    (hlen : k.length + v.length < 2 ^ 62) : Sized (insert t k v) := by
  intro l w hl
  rw [lookup_insert] at hl
  split at hl
  · next hlk =>
    cases hl
    rw [hlk]
    exact ⟨hv, hlen⟩
  · exact h l w hl

theorem Sized.delete (h : Sized t) (k : Nibbles) : Sized (delete t k).1 := by
  intro l w hl
  rw [lookup_delete] at hl
  split at hl
  · simp at hl
  · exact h l w hl

theorem Sized.fits (hc : Canonical t) (h : Sized t) : Fits t := by
  induction hc with
  | nil => trivial
  | leaf path value => exact (h path value (by simp)).2
  | @ext path children value hp hc ih =>
    obtain ⟨k, v, hk⟩ := hc.exists_key (branch_ne_nil _ _)
    have hlen := (h (path ++ k) v (by rw [lookup_ext_append, hk])).2
    rw [length_append] at hlen
    exact ⟨by omega, ih h.ext⟩
  | @branch children value hcs hocc ih =>
    refine ⟨fun i => ih i (h.child i), ?_⟩
    intro v hv
    obtain ⟨hne, hlen⟩ := h [] v hv
    exact ⟨hne, by simpa using hlen⟩

/-! ## Untrusted bytes -/

section

variable {f g : Bytes → TrieResult TrieNode} {data raw : Bytes} {slot : String}

theorem decodeChild_congr (h : f raw = g raw) :
    decodeChild f slot raw = decodeChild g slot raw := by
  unfold decodeChild
  rw [h]

theorem decodeTwo_congr (h : ∀ raw, raw.length < data.length → f raw = g raw) :
    decodeTwo f data = decodeTwo g data := by
  unfold decodeTwo
  refine congrArg _ (funext fun pathBytes => ?_)
  split
  · rfl
  · rfl
  cases hraw : itemAt data 1 with
  | error e => cases e <;> rfl
  | ok raw =>
    rw [liftRlp, ok_bind, ok_bind, decodeChild_congr (h raw (itemAt_length_lt hraw))]

theorem decodeSeventeen_congr (h : ∀ raw, raw.length < data.length → f raw = g raw) :
    decodeSeventeen f data = decodeSeventeen g data := by
  have hslot : decodeSlot f data = decodeSlot g data := by
    funext i
    unfold decodeSlot
    cases hraw : itemAt data i with
    | error e => cases e <;> rfl
    | ok raw => exact decodeChild_congr (h raw (itemAt_length_lt hraw))
  unfold decodeSeventeen
  rw [hslot]

/-- What `decode` does with the number of items. -/
def decodeCounted (f : Bytes → TrieResult TrieNode) (data : Bytes) : Nat → TrieResult TrieNode
  | 0 => .ok .empty
  | 2 => decodeTwo f data
  | 17 => decodeSeventeen f data
  | count => .error (.err (.rlpDecode ("unexpected item count: " ++ toString count)))

theorem decodeFuel_succ (fuel : Nat) (data : Bytes) : decodeFuel (fuel + 1) data =
    liftRlp (itemCount data) >>= decodeCounted (decodeFuel fuel) data := rfl

theorem decodeCounted_congr (h : ∀ raw, raw.length < data.length → f raw = g raw) :
    decodeCounted f data = decodeCounted g data := by
  funext count
  unfold decodeCounted
  rw [decodeTwo_congr h, decodeSeventeen_congr h]

theorem decodeFuel_eq {fuel fuel' : Nat} (h : data.length < fuel) (h' : data.length < fuel') :
    decodeFuel fuel data = decodeFuel fuel' data := by
  induction fuel generalizing data fuel' with
  | zero => omega
  | succ fuel ih =>
    obtain ⟨fuel', rfl⟩ := succ_of_lt h'
    rw [decodeFuel_succ, decodeFuel_succ,
      decodeCounted_congr fun raw hlt => ih (by omega) (show raw.length < fuel' by omega)]

theorem decode_eq (data : Bytes) :
    decode data = liftRlp (itemCount data) >>= decodeCounted decode data := by
  unfold decode
  rw [decodeFuel_succ, decodeCounted_congr fun raw hlt => decodeFuel_eq hlt (Nat.lt_succ_self _)]

theorem mapM_finRange_eq_error {β : Type} {k : Nibble → TrieResult β} {e : Fault TrieError} :
    (finRange 16).mapM k = .error e ↔
      ∃ i, (∀ j < i, ∃ b, k j = .ok b) ∧ k i = .error e := by
  have hsorted := pairwise_lt_finRange 16
  rw [mapM_eq_error]
  constructor
  · rintro ⟨front, i, back, hsplit, hfront, hi⟩
    refine ⟨i, fun j hj => hfront j ?_, hi⟩
    rw [hsplit] at hsorted
    have hmem := mem_finRange j
    rw [hsplit, mem_append, mem_cons] at hmem
    rcases hmem with hmem | rfl | hmem
    · exact hmem
    · exact absurd hj (Nat.lt_irrefl _)
    · have hlt := rel_of_pairwise_cons (pairwise_append.mp hsorted).2.1 hmem
      exact absurd hj (Nat.lt_asymm hlt)
  · rintro ⟨i, hbefore, hi⟩
    obtain ⟨front, back, hsplit⟩ := append_of_mem (mem_finRange i)
    rw [hsplit] at hsorted
    exact ⟨front, i, back, hsplit, fun j hj => hbefore j
      ((pairwise_append.mp hsorted).2.2 j hj i mem_cons_self), hi⟩

end

/-- `decode` comes to a list of two items whose first is the empty string: the data is one, or
it is an extension whose child is inline and leads to one, or a branch with such a child, all
slots before which are well. -/
inductive EmptyPath : Bytes → Prop
  | here {data : Bytes} (hcount : itemCount data = .ok 2) (h : valAt data 0 = .ok []) :
      EmptyPath data
  | extension {data pathBytes raw : Bytes} {path : Nibbles} (hcount : itemCount data = .ok 2)
      (hpath : valAt data 0 = .ok pathBytes) (hext : decodeCompact pathBytes = some (path, false))
      (hraw : itemAt data 1 = .ok raw) (hlist : isList raw = true) (h : EmptyPath raw) :
      EmptyPath data
  | branch {data raw : Bytes} {i : Nibble} (hcount : itemCount data = .ok 17)
      (hbefore : ∀ j < i, ∃ ref, decodeSlot decode data j = .ok ref)
      (hraw : itemAt data i = .ok raw) (hlist : isList raw = true) (h : EmptyPath raw) :
      EmptyPath data

theorem liftRlp_bind_panic {α β : Type} {x : RlpResult α} {f : α → TrieResult β} (hx : Quiet x)
    (h : (liftRlp x >>= f) = .error .panic) : ∃ a, x = .ok a ∧ f a = .error .panic := by
  cases x with
  | error e =>
    cases e with
    | err e => cases h
    | panic => exact absurd rfl hx
  | ok a => exact ⟨a, rfl, h⟩

theorem decodeChild_panic {decode : Bytes → TrieResult TrieNode} {slot : String} {raw : Bytes} :
    decodeChild decode slot raw = .error .panic ↔
      isList raw = true ∧ decode raw = .error .panic := by
  unfold decodeChild
  cases isList raw with
  | true =>
    rw [if_pos rfl, bind_eq_error]
    constructor
    · rintro (h | ⟨n, -, h⟩)
      · exact ⟨rfl, h⟩
      · cases h
    · exact fun h => .inl h.2
  | false =>
    rw [if_neg Bool.false_ne_true]
    refine ⟨fun h => ?_, fun h => absurd h.1 Bool.false_ne_true⟩
    obtain ⟨bytes, -, h⟩ := liftRlp_bind_panic (asBytes_quiet raw) h
    split at h
    · cases h
    split at h <;> cases h

theorem emptyPath_of_panic {data : Bytes} (h : decode data = .error .panic) : EmptyPath data := by
  induction hn : data.length using Nat.strong_induction_on generalizing data with
  | _ n ih =>
    have hinside : ∀ {i slot raw}, itemAt data i = .ok raw →
        decodeChild decode slot raw = .error .panic → isList raw = true ∧ EmptyPath raw := by
      intro i slot raw hraw hp
      have hlt := itemAt_length_lt hraw
      obtain ⟨hlist, hp⟩ := decodeChild_panic.mp hp
      exact ⟨hlist, ih raw.length (by omega) hp rfl⟩
    rw [decode_eq] at h
    obtain ⟨count, hcount, h⟩ := liftRlp_bind_panic (itemCount_quiet data) h
    unfold decodeCounted at h
    split at h
    · cases h
    · obtain ⟨pathBytes, hpath, h⟩ := liftRlp_bind_panic (valAt_quiet data 0) h
      split at h
      next hnone =>
        cases pathBytes with
        | nil => exact .here hcount hpath
        | cons => cases hnone
      · obtain ⟨value, -, h⟩ := liftRlp_bind_panic (valAt_quiet data 1) h
        cases h
      next hext =>
        obtain ⟨raw, hraw, h⟩ := liftRlp_bind_panic (itemAt_quiet data 1) h
        obtain hp | ⟨child, -, h⟩ := bind_eq_error.mp h
        · obtain ⟨hlist, hempty⟩ := hinside hraw hp
          exact .extension hcount hpath hext hraw hlist hempty
        · cases h
    · obtain hp | ⟨children, -, h⟩ := bind_eq_error.mp h
      · obtain ⟨i, hbefore, hp⟩ := mapM_finRange_eq_error.mp hp
        obtain ⟨raw, hraw, hp⟩ := liftRlp_bind_panic (itemAt_quiet data i) hp
        obtain ⟨hlist, hempty⟩ := hinside hraw hp
        exact .branch hcount hbefore hraw hlist hempty
      · obtain ⟨valBytes, -, h⟩ := liftRlp_bind_panic (valAt_quiet data 16) h
        cases h
    · cases h

theorem EmptyPath.panics {data : Bytes} (h : EmptyPath data) : decode data = .error .panic := by
  induction h with
  | here hcount hpath =>
    rw [decode_eq, hcount, liftRlp, ok_bind, decodeCounted, decodeTwo, hpath]
    rfl
  | extension hcount hpath hext hraw hlist _ ih =>
    rw [decode_eq, hcount, liftRlp, ok_bind, decodeCounted, decodeTwo, hpath, liftRlp, ok_bind, hext]
    dsimp only
    rw [hraw, liftRlp, ok_bind, decodeChild_panic.mpr ⟨hlist, ih⟩]
    rfl
  | @branch data raw i hcount hbefore hraw hlist _ ih =>
    have hslot : decodeSlot decode data i = .error .panic := by
      rw [decodeSlot, hraw, liftRlp, ok_bind]
      exact decodeChild_panic.mpr ⟨hlist, ih⟩
    rw [decode_eq, hcount, liftRlp, ok_bind, decodeCounted, decodeSeventeen,
      mapM_finRange_eq_error.mpr ⟨i, hbefore, hslot⟩]
    rfl

/-- The decoder panics exactly at an empty path, and gives back what was encoded. -/
theorem decode_total_and_inverse (data : Bytes) (node : TrieNode) :
    (decode data = .error .panic ↔ EmptyPath data) ∧
    (WellFormed node → node.encode.length < usizeBound → decode node.encode = .ok node) :=
  ⟨⟨emptyPath_of_panic, EmptyPath.panics⟩, decode_encode⟩

theorem empty_path_panics : decode [0xc2, 0x80, 0x80] = .error .panic := rfl

/-- A list of two empty strings inside a list of three items is not reached. -/
theorem leaf_decoded : EmptyPath [0xc2, 0x80, 0x80] ∧ ¬ EmptyPath [0xc5, 0xc2, 0x80, 0x80, 1, 1] ∧
    decode (leaf [1] [2]).encode = .ok (leaf [1] [2]) := by
  refine ⟨?_, fun h => ?_, ?_⟩
  · exact (decode_total_and_inverse [0xc2, 0x80, 0x80] .empty).1.mp rfl
  · have hpanic := (decode_total_and_inverse [0xc5, 0xc2, 0x80, 0x80, 1, 1] .empty).1.mpr h
    cases hpanic
  · exact (decode_total_and_inverse [] (leaf [1] [2])).2 (.leaf _ _) (by decide)

end NibbleTree

end ZbxChain
