import ZbxChain.Trie.Refinement

/-!
# Deletion refines the radix-tree deletion

`delete_node` stores the shortened child before `maybe_collapse_branch` looks at the
remaining slots, so a slot may be read back from an entry that was written moments
before. Under the same hypothesis about the hash as in `ZbxChain.Trie.Refinement`,
`deleteNode_spec` says that the result is the node of `Radix.delete`, with its report
whether the key was there.
-/

namespace ZbxChain.MutableTrie

open NibbleTree Radix Grows List Function

variable {DB : Type} [TrieDB DB]

variable {S : Set Bytes} (hS : CollisionFree S) {T : MutableTrie DB} {cs : Nibble → NibbleTree}
  {c : NibbleTree} {v : Option Bytes}

theorem occupied_refOf (c : NibbleTree) : occupied (refOf (toNode c)) = true ↔ c ≠ .nil := by
  rw [Ne, ← refOf_toNode_eq_empty_iff]
  cases h : refOf (toNode c) <;> simp [occupied]

theorem mem_occupied {i : Nibble} :
    i ∈ (finRange 16).filter (fun i => occupied (refOf (toNode (cs i)))) ↔ cs i ≠ .nil := by
  rw [mem_filter, occupied_refOf]
  simp

include hS

theorem mergePath_spec {p : Nibbles} (hclosed : Closed S T c)
    (hT : Sound S (finalState (mergePath p (toNode c) T))) :
    ∃ T', mergePath p (toNode c) T = .ok (toNode (graft p c)) T' ∧
      Grows T T' ∧ Closed S T' (graft p c) := by
  cases c with
  | nil => exact ⟨T, rfl, refl T, hclosed⟩
  | leaf q v => exact ⟨T, rfl, refl T, closed_leaf _ _⟩
  | ext q c => exact ⟨T, rfl, refl T, closed_ext.mpr (closed_ext.mp hclosed)⟩
  | branch cs v =>
    have hstore := hT.of_bind fun _ => extends_pure _
    obtain ⟨T', hrun, hg, hheld⟩ := storeNode_spec hS (branch_ne_nil cs v) hclosed hstore
    simp only [toNode] at hrun
    refine ⟨T', ?_, hg, closed_ext.mpr hheld⟩
    simp only [mergePath, toNode]
    rw [estate_bind_ok hrun]
    rfl

theorem storeChild_spec (hclosed : Closed S T c)
    (hT : Sound S (finalState (storeChild (toNode c) T))) :
    ∃ T', storeChild (toNode c) T = .ok (refOf (toNode c)) T' ∧ Grows T T' ∧ RefHeld S T' c := by
  by_cases hnil : c = .nil
  · subst hnil
    exact ⟨T, rfl, refl T, RefHeld.nil T⟩
  have hcode : (storeChild (toNode c) : TrieM DB NodeRef) = storeNode (toNode c) := by
    unfold storeChild
    split
    · next he => exact absurd he (toNode_ne_empty hnil)
    · rfl
  rw [hcode] at hT ⊢
  exact storeNode_spec hS hnil hclosed hT

variable (h80 : [0x80] ∈ S)

include h80

theorem maybeCollapseBranch_spec (hheld : ∀ i, RefHeld S T (cs i)) (hfits : ∀ i, Fits (cs i))
    (hT : Sound S (finalState (maybeCollapseBranch (fun i => refOf (toNode (cs i))) v T))) :
    ∃ T', maybeCollapseBranch (fun i => refOf (toNode (cs i))) v T =
        .ok (toNode (collapse cs v)) T' ∧ Grows T T' ∧ Closed S T' (collapse cs v) := by
  have hmem : ∀ i, i ∈ (finRange 16).filter
      (fun i => occupied (refOf (toNode (cs i)))) ↔ cs i ≠ .nil := fun i => mem_occupied
  have hnodup : ((finRange 16).filter
      (fun i => occupied (refOf (toNode (cs i))))).Nodup := (nodup_finRange 16).filter _
  unfold maybeCollapseBranch at hT ⊢
  generalize (finRange 16).filter (fun i => occupied (refOf (toNode (cs i)))) = slots
    at hmem hnodup hT ⊢
  cases slots with
  | nil =>
    have hempty : ∀ i, cs i = .nil := fun i => by
      by_contra hne
      exact absurd ((hmem i).mpr hne) (by simp)
    rw [collapse_of_empty v hempty]
    cases v with
    | none => exact ⟨T, rfl, refl T, closed_nil T⟩
    | some w => exact ⟨T, rfl, refl T, closed_leaf _ _⟩
  | cons i slots =>
    have hi : cs i ≠ .nil := (hmem i).mp (by simp)
    have hbranch : Crowded cs v → ∃ T',
        (pure (.branch (fun i => refOf (toNode (cs i))) v) : TrieM DB TrieNode) T =
          .ok (toNode (collapse cs v)) T' ∧
        Grows T T' ∧ Closed S T' (collapse cs v) := by
      intro hcrowd
      rw [collapse_of_crowded hcrowd]
      exact ⟨T, rfl, refl T, closed_branch.mpr hheld⟩
    cases slots with
    | nil =>
      cases v with
      | none =>
        have hrest : ∀ j, j ≠ i → cs j = .nil := by
          intro j hj
          by_contra hne
          exact hj (by simpa using (hmem j).mpr hne)
        rw [collapse_of_single hi hrest]
        simp only at hT ⊢
        rw [estate_bind_ok (resolveM_refOf hS h80 (hfits i) (hheld i))] at hT ⊢
        exact mergePath_spec hS (hheld i).2 hT
      | some w => exact hbranch (.inl ⟨rfl, i, hi⟩)
    | cons j slots =>
      have hj : cs j ≠ .nil := (hmem j).mp (by simp)
      have hij : i ≠ j := by
        rintro rfl
        simp at hnodup
      exact hbranch (.inr ⟨i, j, hij, hi, hj⟩)

theorem replaceChild_spec {T₀ : MutableTrie DB} {a : Nibble} (hheld : ∀ i, RefHeld S T₀ (cs i))
    (hg : Grows T₀ T) (hfits : ∀ i, Fits (cs i)) (hclosed : Closed S T c) (hfit : Fits c)
    (hT : Sound S (finalState ((do
      let r ← storeChild (toNode c)
      let collapsed ← maybeCollapseBranch (update (fun i => refOf (toNode (cs i))) a r) v
      return (collapsed, true)) T))) :
    ∃ T', (do
        let r ← storeChild (toNode c)
        let collapsed ← maybeCollapseBranch (update (fun i => refOf (toNode (cs i))) a r) v
        return (collapsed, true)) T =
          .ok (toNode (collapse (update cs a c) v), true) T' ∧
      Grows T T' ∧ Closed S T' (collapse (update cs a c) v) := by
  have hstore := hT.of_bind fun _ =>
    extends_bind (extends_maybeCollapseBranch _ _) fun _ => extends_pure _
  obtain ⟨T₁, hrun₁, hg₁, hheld₁⟩ := storeChild_spec hS hclosed hstore
  rw [estate_bind_ok hrun₁, ← refOf_update] at hT ⊢
  rw [hrun₁, finalState_ok] at hstore
  have hall := refHeld_update (i := a) (fun j => (hheld j).mono hS hstore (hg.trans hg₁)) hheld₁
  have hallfit : ∀ j, Fits (update cs a c j) := by
    intro j
    by_cases hj : j = a
    · subst hj
      simpa using hfit
    · simpa [hj] using hfits j
  obtain ⟨T₂, hrun₂, hg₂, hclosed₂⟩ := maybeCollapseBranch_spec hS h80 hall hallfit
    (hT.of_bind fun _ => extends_pure _)
  rw [estate_bind_ok hrun₂]
  exact ⟨T₂, rfl, hg₁.trans hg₂, hclosed₂⟩

theorem deleteNode_spec {t : NibbleTree} {key : Nibbles} {depth fuel : Nat}
    (hcanon : Canonical t) (hsized : Sized t) (hclosed : Closed S T t)
    (hdepth : depth ≤ key.length) (hfuel : (key.drop depth).length < fuel)
    (hT : Sound S (finalState (deleteNode fuel (toNode t) key depth T))) :
    ∃ T', deleteNode fuel (toNode t) key depth T =
        .ok (toNode (Radix.delete t (key.drop depth)).1, (Radix.delete t (key.drop depth)).2) T' ∧
      Grows T T' ∧ Closed S T' (Radix.delete t (key.drop depth)).1 := by
  have hfits := hsized.fits hcanon
  induction t generalizing T depth fuel with
  | nil =>
    obtain ⟨fuel, rfl⟩ := succ_of_lt hfuel
    exact ⟨T, rfl, refl T, hclosed⟩
  | leaf p w =>
    obtain ⟨fuel, rfl⟩ := succ_of_lt hfuel
    have hmatch : ((key.drop depth).length = p.length ∧
        Nibbles.commonPrefixLen (key.drop depth) p = p.length) ↔ key.drop depth = p := by
      rw [← exact_match_iff, and_comm, eq_comm (a := (key.drop depth).length)]
    simp only [toNode, deleteNode, hmatch, Radix.delete]
    by_cases hk : key.drop depth = p
    · rw [if_pos hk, if_pos hk]
      exact ⟨T, rfl, refl T, closed_nil T⟩
    · rw [if_neg hk, if_neg hk]
      exact ⟨T, rfl, refl T, closed_leaf _ _⟩
  | ext p c ih =>
    obtain ⟨fuel, rfl⟩ := succ_of_lt hfuel
    have hheld := closed_ext.mp hclosed
    simp only [toNode, deleteNode, commonPrefixLen_eq_right_iff, Radix.delete] at hT ⊢
    by_cases hp : p <+: key.drop depth
    · obtain ⟨hdrop, hlen⟩ := drop_add_of_prefix hp
      have hpos := length_pos_iff.mpr hcanon.ext_inv.1
      rw [if_pos hp, estate_bind_ok (resolveM_refOf hS h80 hfits.2 hheld)] at hT ⊢
      rw [if_pos hp, ← hdrop]
      have hsub := hT.of_bind fun r => by
        split
        · exact extends_bind (extends_mergePath _ _) fun _ => extends_pure _
        · exact extends_pure _
      obtain ⟨T₁, hrun₁, hg₁, hclosed₁⟩ := ih hcanon.ext_inv.2 hsized.ext hheld.2
        (by
          have := hp.length_le
          rw [length_drop] at this
          omega)
        (by omega) hsub hfits.2
      rw [estate_bind_ok hrun₁] at hT ⊢
      rw [hrun₁, finalState_ok] at hsub
      cases hremoved : (Radix.delete c (key.drop (depth + p.length))).2 with
      | false =>
        simp only [Bool.false_eq_true, if_false]
        exact ⟨T₁, rfl, hg₁, closed_ext.mpr (hheld.mono hS hsub hg₁)⟩
      | true =>
        simp only [hremoved, if_true] at hT ⊢
        obtain ⟨T₂, hrun₂, hg₂, hclosed₂⟩ := mergePath_spec hS hclosed₁
          (hT.of_bind fun _ => extends_pure _)
        rw [estate_bind_ok hrun₂]
        exact ⟨T₂, rfl, hg₁.trans hg₂, hclosed₂⟩
    · rw [if_neg hp, if_neg hp]
      exact ⟨T, rfl, refl T, hclosed⟩
  | branch cs w ih =>
    obtain ⟨fuel, rfl⟩ := succ_of_lt hfuel
    have hheld := closed_branch.mp hclosed
    cases hkey : key.drop depth with
    | nil =>
      have hend := (drop_eq_nil_iff_depth hdepth).mpr hkey
      simp only [toNode, deleteNode, if_pos hend, Radix.delete] at hT ⊢
      cases w with
      | none => exact ⟨T, rfl, refl T, hclosed⟩
      | some w =>
        simp only [Option.isSome_some, if_true] at hT ⊢
        obtain ⟨T₁, hrun₁, hg₁, hclosed₁⟩ := maybeCollapseBranch_spec hS h80 hheld hfits.1
          (hT.of_bind fun _ => extends_pure _)
        rw [estate_bind_ok hrun₁]
        exact ⟨T₁, rfl, hg₁, hclosed₁⟩
    | cons a rest =>
      obtain ⟨hget, hdrop, hnext, hne⟩ := getElem?_of_drop hkey
      rw [hkey, length_cons] at hfuel
      simp only [toNode, deleteNode, if_neg hne, hget, Radix.delete] at hT ⊢
      rw [estate_bind_ok (resolveM_refOf hS h80 (hfits.1 a) (hheld a))] at hT ⊢
      have hsub := hT.of_bind fun r => by
        split
        · refine extends_bind (extends_storeChild _) fun _ => ?_
          exact extends_bind (extends_maybeCollapseBranch _ _) fun _ => extends_pure _
        · exact extends_pure _
      obtain ⟨T₁, hrun₁, hg₁, hclosed₁⟩ := ih a (hcanon.child a) (hsized.child a) (hheld a).2
        hnext (by rw [hdrop]; omega) hsub (hfits.1 a)
      rw [estate_bind_ok hrun₁] at hT ⊢
      rw [hrun₁, finalState_ok] at hsub
      rw [hdrop] at hT hclosed₁ ⊢
      cases hremoved : (Radix.delete (cs a) rest).2 with
      | false =>
        simp only [Bool.false_eq_true, if_false]
        exact ⟨T₁, rfl, hg₁, closed_branch.mpr fun j => (hheld j).mono hS hsub hg₁⟩
      | true =>
        simp only [hremoved, if_true] at hT ⊢
        have hfit := ((hsized.child a).delete rest).fits ((hcanon.child a).delete rest)
        obtain ⟨T₂, hrun₂, hg₂, hclosed₂⟩ := replaceChild_spec hS h80 hheld hg₁ hfits.1 hclosed₁
          hfit hT
        rw [hrun₂]
        exact ⟨T₂, rfl, hg₁.trans hg₂, hclosed₂⟩

end ZbxChain.MutableTrie
