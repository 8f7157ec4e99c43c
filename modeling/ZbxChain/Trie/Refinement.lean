import ZbxChain.Trie.Store

/-!
# The trie's methods refine the radix-tree operations

On a store that holds the nodes of a tree, `insert_node` returns the node of the tree that
`Radix.insert` gives and leaves a store that holds it, and `get_node` returns what `Radix.lookup`
gives. Deletion is in `ZbxChain.Trie.Deletion`.
-/

namespace ZbxChain.MutableTrie

open NibbleTree Radix Nibbles Grows Function

variable {DB : Type}

theorem Sound.of_bind {α β : Type} {S : Set Bytes} {T : MutableTrie DB} {x : TrieM DB α}
    {f : α → TrieM DB β} (hf : ∀ a, Extends Grows (f a))
    (h : Sound S (finalState ((x >>= f) T))) : Sound S (finalState (x T)) := by
  cases hx : x T with
  | ok a T₁ =>
    rw [estate_bind_ok hx] at h
    exact h.of_grows (hf a T₁)
  | error e T₁ =>
    rw [estate_bind_error hx] at h
    exact h

def toFan (fan : Fan Nibble Bytes) : NodeFan :=
  (fun i => refOf (toNode (fan.1 i)), fan.2)

theorem refOf_update (cs : Nibble → NibbleTree) (i : Nibble) (c : NibbleTree) :
    (fun j => refOf (toNode (update cs i c j))) =
      update (fun j => refOf (toNode (cs j))) i (refOf (toNode c)) := by
  funext j
  by_cases hj : j = i
  · subst hj
    simp
  · simp [hj]

theorem commonPrefixLen_eq_right_iff (k p : Nibbles) : commonPrefixLen k p = p.length ↔ p <+: k :=
  length_commonPrefix_eq_right_iff k p

theorem take_commonPrefixLen (k p : Nibbles) : k.take (commonPrefixLen k p) = commonPrefix k p := by
  obtain ⟨k', -, hk, -, -⟩ := commonPrefix_spec k p
  unfold commonPrefixLen
  generalize commonPrefix k p = c at hk ⊢
  rw [hk, List.take_left]

theorem exact_match_iff (k p : Nibbles) :
    (commonPrefixLen k p = p.length ∧ p.length = k.length) ↔ k = p := by
  rw [commonPrefixLen_eq_right_iff]
  constructor
  · rintro ⟨hp, hlen⟩
    exact (hp.eq_of_length hlen).symm
  · rintro rfl
    exact ⟨List.prefix_rfl, rfl⟩

/-! ## What a depth leaves of the key -/

variable {depth : Nat} {key : Nibbles}

theorem drop_eq_nil_iff_depth (h : depth ≤ key.length) :
    depth = key.length ↔ key.drop depth = [] := by
  rw [List.drop_eq_nil_iff]
  omega

theorem getElem?_of_drop {rest : Nibbles} {a : Nibble} (h : key.drop depth = a :: rest) :
    key[depth]? = some a ∧ key.drop (depth + 1) = rest ∧
      depth + 1 ≤ key.length ∧ depth ≠ key.length := by
  have hlt : depth < key.length := by
    have := congrArg List.length h
    simp only [List.length_drop, List.length_cons] at this
    omega
  rw [List.drop_eq_getElem_cons hlt] at h
  obtain ⟨ha, hrest⟩ := List.cons.inj h
  exact ⟨by rw [List.getElem?_eq_getElem hlt, ha], hrest, hlt, by omega⟩

theorem drop_add_of_prefix {path : Nibbles} (h : path <+: key.drop depth) :
    key.drop (depth + path.length) = (key.drop depth).drop path.length ∧
      (key.drop depth).length = path.length + (key.drop (depth + path.length)).length := by
  have hle := h.length_le
  rw [← List.drop_drop]
  refine ⟨rfl, ?_⟩
  rw [List.length_drop (i := path.length)]
  omega

variable [TrieDB DB]

section

variable {S : Set Bytes} {T : MutableTrie DB} {cs : Nibble → NibbleTree} {c : NibbleTree}

theorem closed_branch {v : Option Bytes} : Closed S T (.branch cs v) ↔ ∀ i, RefHeld S T (cs i) := by
  constructor
  · exact fun h i => ⟨fun hl => h _ (.branchChild hl), fun e he => h e (.branchBelow he)⟩
  intro h e he
  cases he with
  | branchChild hl => exact (h _).1 hl
  | branchBelow he => exact (h _).2 e he

theorem closed_ext {p : Nibbles} : Closed S T (.ext p c) ↔ RefHeld S T c := by
  constructor
  · exact fun h => ⟨fun hl => h _ (.extChild hl), fun e he => h e (.extBelow he)⟩
  intro h e he
  cases he with
  | extChild hl => exact h.1 hl
  | extBelow he => exact h.2 e he

theorem closed_leaf (p : Nibbles) (v : Bytes) : Closed S T (.leaf p v) :=
  fun e h => absurd h (not_linked_leaf p v e)

theorem refHeld_update {i : Nibble} (hcs : ∀ j, RefHeld S T (cs j)) (hc : RefHeld S T c)
    (j : Nibble) : RefHeld S T (update cs i c j) := by
  by_cases hj : j = i
  · subst hj
    simpa using hc
  · simpa [hj] using hcs j

end

variable {S : Set Bytes} (hS : CollisionFree S) {T : MutableTrie DB} {v : Bytes} {depth fuel : Nat}
  {c t : NibbleTree} {k key p : Nibbles}

include hS

theorem placeLeaf_spec (fan : Fan Nibble Bytes) (hfan : ∀ i, RefHeld S T (fan.1 i))
    {rest : Nibbles} (hT : Sound S (finalState (placeLeaf (toFan fan) rest v T))) :
    ∃ T', placeLeaf (toFan fan) rest v T = .ok (toFan (place fan rest v)) T' ∧
      Grows T T' ∧ ∀ i, RefHeld S T' ((place fan rest v).1 i) := by
  cases rest with
  | nil => exact ⟨T, rfl, refl T, hfan⟩
  | cons a rest =>
    have hstore := hT.of_bind fun _ => extends_pure _
    obtain ⟨T', hrun, hg, hheld⟩ := storeNode_spec hS (leaf_ne_nil rest v)
      (closed_leaf rest v) hstore
    simp only [toNode] at hrun
    refine ⟨T', ?_, hg, ?_⟩
    · simp only [placeLeaf]
      rw [estate_bind_ok hrun]
      simp only [estate_pure, toFan, place, refOf_update, toNode]
    · rw [hrun, finalState_ok] at hstore
      exact refHeld_update (fun j => (hfan j).mono hS hstore hg) hheld

theorem wrapBranch_spec (fan : Fan Nibble Bytes) (hfan : ∀ i, RefHeld S T (fan.1 i))
    {path : Nibbles} (hT : Sound S (finalState (wrapBranch path (toFan fan) T))) :
    ∃ T', wrapBranch path (toFan fan) T = .ok (toNode (wrap path fan)) T' ∧
      Grows T T' ∧ Closed S T' (wrap path fan) := by
  cases path with
  | nil => exact ⟨T, rfl, refl T, closed_branch.mpr hfan⟩
  | cons a path =>
    have hcode : (wrapBranch (a :: path) (toFan fan) : TrieM DB TrieNode) = (do
      let r ← storeNode (toNode (.branch fan.1 fan.2))
      return .extension (a :: path) r) := rfl
    rw [hcode] at hT ⊢
    rw [wrap_cons]
    have hstore := hT.of_bind fun _ => extends_pure _
    obtain ⟨T', hrun, hg, hheld⟩ := storeNode_spec hS (branch_ne_nil fan.1 fan.2)
      (closed_branch.mpr hfan) hstore
    rw [estate_bind_ok hrun]
    exact ⟨T', rfl, hg, closed_ext.mpr hheld⟩

theorem insertAtLeaf_spec {w : Bytes} (hT : Sound S (finalState (insertAtLeaf p w k v T))) :
    ∃ T', insertAtLeaf p w k v T = .ok (toNode (Radix.insert (.leaf p w) k v)) T' ∧
      Grows T T' ∧ Closed S T' (Radix.insert (.leaf p w) k v) := by
  have hmatch : (commonPrefixLen k p = p.length ∧
      commonPrefixLen k p = k.length) ↔ p = k := by
    rw [eq_comm (a := p), ← exact_match_iff k p]
    constructor
    · rintro ⟨h₁, h₂⟩
      exact ⟨h₁, h₁.symm.trans h₂⟩
    · rintro ⟨h₁, h₂⟩
      exact ⟨h₁, h₁.trans h₂⟩
  unfold insertAtLeaf at hT ⊢
  simp only [hmatch] at hT ⊢
  by_cases hpk : p = k
  · rw [if_pos hpk] at hT ⊢
    exact ⟨T, by simp [Radix.insert, hpk, toNode], refl T,
      by simpa [Radix.insert, hpk] using closed_leaf k v⟩
  rw [if_neg hpk] at hT ⊢
  -- the old leaf, then the new one, then the branch that holds both
  have h₁ := hT.of_bind fun _ =>
    extends_bind (extends_placeLeaf _ _ _) fun _ => extends_wrapBranch _ _
  obtain ⟨T₁, hrun₁, hg₁, hheld₁⟩ := placeLeaf_spec hS (fun _ => .nil, none)
    (fun _ => RefHeld.nil T) h₁
  rw [show toFan (fun _ => .nil, none) = (fun _ => .empty, none) from rfl] at hrun₁
  rw [estate_bind_ok hrun₁] at hT ⊢
  have h₂ := hT.of_bind fun _ => extends_wrapBranch _ _
  obtain ⟨T₂, hrun₂, hg₂, hheld₂⟩ := placeLeaf_spec hS _ hheld₁ h₂
  rw [estate_bind_ok hrun₂] at hT ⊢
  obtain ⟨T₃, hrun₃, hg₃, hclosed⟩ := wrapBranch_spec hS _ hheld₂ hT
  refine ⟨T₃, ?_, hg₁.trans (hg₂.trans hg₃), ?_⟩
  · rw [hrun₃, take_commonPrefixLen]
    simp only [Radix.insert, if_neg hpk, commonPrefixLen]
  · rw [take_commonPrefixLen] at hclosed
    simpa only [Radix.insert, if_neg hpk, commonPrefixLen] using hclosed

theorem extensionRest_spec (hheld : RefHeld S T c)
    (hT : Sound S (finalState (extensionRest p (refOf (toNode c)) T))) :
    ∃ T', extensionRest p (refOf (toNode c)) T = .ok (refOf (toNode (hang p c))) T' ∧
      Grows T T' ∧ RefHeld S T' (hang p c) := by
  cases p with
  | nil => exact ⟨T, rfl, refl T, hheld⟩
  | cons a p =>
    have hcode : (extensionRest (a :: p) (refOf (toNode c)) : TrieM DB NodeRef) =
      storeNode (toNode (.ext (a :: p) c)) := rfl
    rw [hcode] at hT ⊢
    rw [hang_cons]
    exact storeNode_spec hS (ext_ne_nil (a :: p) c) (closed_ext.mpr hheld) hT

theorem splitExtension_spec (hpk : ¬ p <+: k) (hheld : RefHeld S T c)
    (hT : Sound S (finalState (splitExtension p (refOf (toNode c)) k v T))) :
    ∃ T', splitExtension p (refOf (toNode c)) k v T =
        .ok (toNode (Radix.insert (.ext p c) k v)) T' ∧
      Grows T T' ∧ Closed S T' (Radix.insert (.ext p c) k v) := by
  have htail : p.drop (commonPrefix k p).length ≠ [] := by
    intro hnil
    apply hpk
    rw [← length_commonPrefix_eq_right_iff]
    obtain ⟨-, p', -, hp, -⟩ := commonPrefix_spec k p
    have hlen := congrArg List.length hp
    have hle := List.drop_eq_nil_iff.mp hnil
    rw [List.length_append] at hlen
    omega
  obtain ⟨a, p', hp'⟩ := List.exists_cons_of_ne_nil htail
  have hinsert : Radix.insert (.ext p c) k v = Radix.wrap (Radix.commonPrefix k p)
      (place (update (fun _ => .nil) a (hang p' c), none)
        (k.drop (commonPrefix k p).length) v) := by
    simp only [Radix.insert, if_neg hpk, hp']
  have hcode : splitExtension p (refOf (toNode c)) k v = (do
      let r ← extensionRest p' (refOf (toNode c))
      let fan ← placeLeaf (update (fun _ => .empty) a r, none)
        (k.drop (commonPrefix k p).length) v
      wrapBranch (commonPrefix k p) fan : TrieM DB TrieNode) := by
    simp only [splitExtension, take_commonPrefixLen]
    simp only [commonPrefixLen, hp']
  rw [hcode] at hT ⊢
  rw [hinsert]
  have h₁ := hT.of_bind fun _ =>
    extends_bind (extends_placeLeaf _ _ _) fun _ => extends_wrapBranch _ _
  obtain ⟨T₁, hrun₁, hg₁, hheld₁⟩ := extensionRest_spec hS hheld h₁
  rw [hrun₁, finalState_ok] at h₁
  rw [estate_bind_ok hrun₁] at hT ⊢
  have hstart : toFan (update (fun _ => .nil) a (hang p' c), none) =
      (update (fun _ => .empty) a (refOf (toNode (hang p' c))), none) := by
    simp only [toFan, refOf_update]
    rfl
  rw [← hstart] at hT ⊢
  have h₂ := hT.of_bind fun _ => extends_wrapBranch _ _
  obtain ⟨T₂, hrun₂, hg₂, hheld₂⟩ := placeLeaf_spec hS _
    (refHeld_update (fun _ => RefHeld.nil T₁) hheld₁) h₂
  rw [estate_bind_ok hrun₂] at hT ⊢
  obtain ⟨T₃, hrun₃, hg₃, hclosed⟩ := wrapBranch_spec hS _ hheld₂ hT
  exact ⟨T₃, hrun₃, hg₁.trans (hg₂.trans hg₃), hclosed⟩

theorem storeBelow_spec {x : TrieM DB TrieNode} {F : NodeRef → TrieNode} (hne : c ≠ .nil)
    (hx : Sound S (finalState (x T)) → ∃ T₁, x T = .ok (toNode c) T₁ ∧ Grows T T₁ ∧ Closed S T₁ c)
    (hT : Sound S (finalState ((do
      let n ← x
      let r ← storeNode n
      return F r : TrieM DB TrieNode) T))) :
    ∃ T', (do
      let n ← x
      let r ← storeNode n
      return F r : TrieM DB TrieNode) T = .ok (F (refOf (toNode c))) T' ∧
      Grows T T' ∧ RefHeld S T' c := by
  have h₁ := hT.of_bind fun _ => extends_bind (extends_storeNode _) fun _ => extends_pure _
  obtain ⟨T₁, hrun₁, hg₁, hclosed₁⟩ := hx h₁
  rw [estate_bind_ok hrun₁] at hT ⊢
  have h₂ := hT.of_bind fun _ => extends_pure _
  obtain ⟨T₂, hrun₂, hg₂, hheld⟩ := storeNode_spec hS hne hclosed₁ h₂
  rw [estate_bind_ok hrun₂]
  exact ⟨T₂, rfl, hg₁.trans hg₂, hheld⟩

variable (h80 : [0x80] ∈ S)

include h80

theorem insertNode_spec (hcanon : Canonical t) (hfits : Fits t) (hclosed : Closed S T t)
    (hdepth : depth ≤ key.length) (hfuel : (key.drop depth).length < fuel)
    (hT : Sound S (finalState (insertNode fuel (toNode t) key depth v T))) :
    ∃ T', insertNode fuel (toNode t) key depth v T =
        .ok (toNode (Radix.insert t (key.drop depth) v)) T' ∧
      Grows T T' ∧ Closed S T' (Radix.insert t (key.drop depth) v) := by
  induction t generalizing T depth fuel with
  | nil =>
    obtain ⟨fuel, rfl⟩ := succ_of_lt hfuel
    exact ⟨T, rfl, refl T, closed_leaf _ _⟩
  | leaf p w =>
    obtain ⟨fuel, rfl⟩ := succ_of_lt hfuel
    exact insertAtLeaf_spec hS hT
  | ext p c ih =>
    obtain ⟨fuel, rfl⟩ := succ_of_lt hfuel
    have hheld := closed_ext.mp hclosed
    simp only [toNode, insertNode, commonPrefixLen_eq_right_iff] at hT ⊢
    by_cases hp : p <+: key.drop depth
    · obtain ⟨hdrop, hlen⟩ := drop_add_of_prefix hp
      rw [if_pos hp, (commonPrefixLen_eq_right_iff _ _).mpr hp,
        estate_bind_ok (resolveM_refOf hS h80 hfits.2 hheld)] at hT ⊢
      have hpos := List.length_pos_iff.mpr hcanon.ext_inv.1
      obtain ⟨T', hrun, hg, hheld'⟩ := storeBelow_spec hS (Radix.insert_ne_nil c _ v)
        (ih hcanon.ext_inv.2 hfits.2 hheld.2 (by
          have := hp.length_le
          rw [List.length_drop] at this
          omega) (by omega)) hT
      rw [hdrop] at hrun hheld'
      refine ⟨T', ?_, hg, ?_⟩
      · rw [hrun]
        simp only [Radix.insert, if_pos hp, toNode]
      · simpa only [Radix.insert, if_pos hp] using closed_ext.mpr hheld'
    · rw [if_neg hp] at hT ⊢
      exact splitExtension_spec hS hp hheld hT
  | branch cs w ih =>
    obtain ⟨fuel, rfl⟩ := succ_of_lt hfuel
    have hheld := closed_branch.mp hclosed
    cases hkey : key.drop depth with
    | nil =>
      have hend := (drop_eq_nil_iff_depth hdepth).mpr hkey
      refine ⟨T, ?_, refl T, closed_branch.mpr hheld⟩
      simp only [toNode, insertNode, if_pos hend, estate_pure, Radix.insert]
    | cons a rest =>
      obtain ⟨hget, hdrop, hnext, hne⟩ := getElem?_of_drop hkey
      rw [hkey, List.length_cons] at hfuel
      simp only [toNode, insertNode, if_neg hne, hget] at hT ⊢
      rw [estate_bind_ok (resolveM_refOf hS h80 (hfits.1 a) (hheld a))] at hT ⊢
      obtain ⟨T', hrun, hg, hheld'⟩ := storeBelow_spec hS (Radix.insert_ne_nil (cs a) _ v)
        (ih a (hcanon.child a) (hfits.1 a) (hheld a).2 hnext (by rw [hdrop]; omega)) hT
      rw [hdrop] at hrun hheld'
      rw [hrun, finalState_ok] at hT
      refine ⟨T', ?_, hg, ?_⟩
      · rw [hrun]
        simp only [Radix.insert, toNode, refOf_update]
      simp only [Radix.insert]
      exact closed_branch.mpr
        (refHeld_update (fun j => (hheld j).mono hS hT hg) hheld')

/-! ## Reading -/

theorem getNode_spec {r : NodeRef} (hcanon : Canonical t) (hfits : Fits t)
    (hclosed : Closed S T t) (hr : T.resolve r = .ok (toNode t)) (hdepth : depth ≤ key.length)
    (hfuel : (key.drop depth).length < fuel) :
    T.getNode fuel r key depth = .ok (lookup t (key.drop depth)) := by
  induction t generalizing r depth fuel with
  | nil =>
    obtain ⟨fuel, rfl⟩ := succ_of_lt hfuel
    simp only [getNode, hr, toNode, ok_bind, lookup_nil, pure_eq_ok]
  | leaf p w =>
    obtain ⟨fuel, rfl⟩ := succ_of_lt hfuel
    simp only [getNode, hr, toNode, ok_bind, lookup_leaf, exact_match_iff, pure_eq_ok]
    split <;> rfl
  | ext p c ih =>
    obtain ⟨fuel, rfl⟩ := succ_of_lt hfuel
    have hheld := closed_ext.mp hclosed
    simp only [getNode, hr, toNode, ok_bind, lookup_ext, pure_eq_ok]
    by_cases hp : p <+: key.drop depth
    · have hcp := (commonPrefixLen_eq_right_iff _ _).mpr hp
      obtain ⟨hdrop, hlen⟩ := drop_add_of_prefix hp
      have hpos := List.length_pos_iff.mpr hcanon.ext_inv.1
      rw [hcp, if_neg (Nat.lt_irrefl _), if_pos hp, ← hdrop]
      apply ih hcanon.ext_inv.2 hfits.2 hheld.2 (resolve_refOf hS h80 hfits.2 hheld)
      · have := hp.length_le
        rw [List.length_drop] at this
        omega
      · omega
    · have hcp : commonPrefixLen (key.drop depth) p < p.length := by
        apply Nat.lt_of_le_of_ne
        · obtain ⟨-, p', -, hp', -⟩ := commonPrefix_spec (key.drop depth) p
          have := congrArg List.length hp'
          rw [List.length_append] at this
          unfold commonPrefixLen
          omega
        · exact fun h => hp ((commonPrefixLen_eq_right_iff _ _).mp h)
      rw [if_pos hcp, if_neg hp]
  | branch cs w ih =>
    obtain ⟨fuel, rfl⟩ := succ_of_lt hfuel
    have hheld := closed_branch.mp hclosed
    cases hkey : key.drop depth with
    | nil =>
      have hend := (drop_eq_nil_iff_depth hdepth).mpr hkey
      simp only [getNode, hr, toNode, ok_bind, if_pos hend, lookup_branch_nil, pure_eq_ok]
    | cons a rest =>
      obtain ⟨hget, hdrop, hnext, hne⟩ := getElem?_of_drop hkey
      rw [hkey, List.length_cons] at hfuel
      simp only [getNode, hr, toNode, ok_bind, if_neg hne, hget, lookup_branch_cons]
      rw [← hdrop]
      exact ih a (hcanon.child a) (hfits.1 a) (hheld a).2
        (resolve_refOf hS h80 (hfits.1 a) (hheld a)) hnext (by rw [hdrop]; omega)

end ZbxChain.MutableTrie
