import Mathlib.Algebra.BigOperators.Group.Finset.Basic
import Mathlib.Algebra.Order.BigOperators.Group.Finset
import Mathlib.Algebra.Ring.Nat
import Mathlib.Data.List.AList

/-!
# Finite maps

Association lists with distinct keys as finite maps: writing a list of entries, removing a list of
keys, and the total weight of the entries.
-/

namespace ZbxChain.FiniteMap

open List AList

variable {κ ν : Type} [DecidableEq κ]

variable (m : AList fun _ : κ => ν)

theorem lookup_insert_eq (a b : κ) (v : ν) :
    (m.insert a v).lookup b = if b = a then some v else m.lookup b := by
  split
  · rename_i heq
    rw [heq, lookup_insert]
  · rename_i hne
    exact lookup_insert_ne hne

theorem lookup_erase_eq (a b : κ) : (m.erase a).lookup b = if b = a then none else m.lookup b := by
  split
  · rename_i heq
    rw [heq, lookup_erase]
  · rename_i hne
    exact lookup_erase_ne hne

theorem lookup_insert_cases {m : AList fun _ : κ => ν} {a b : κ} {v w : ν}
    (h : (m.insert a v).lookup b = some w) : b = a ∧ w = v ∨ m.lookup b = some w := by
  rw [lookup_insert_eq] at h
  split at h
  · rename_i heq
    exact .inl ⟨heq, (Option.some.inj h).symm⟩
  · exact .inr h

theorem lookup_of_erase {m : AList fun _ : κ => ν} {a b : κ} {w : ν}
    (h : (m.erase a).lookup b = some w) : m.lookup b = some w := by
  rw [lookup_erase_eq] at h
  split at h
  · cases h
  · exact h

def insertAll (m : AList fun _ : κ => ν) (entries : List ((_ : κ) × ν)) :
    AList fun _ : κ => ν :=
  entries.foldl (fun m e => m.insert e.1 e.2) m

theorem lookup_insertAll {entries : List ((_ : κ) × ν)} (h : entries.NodupKeys)
    (m : AList fun _ : κ => ν) (a : κ) :
    (insertAll m entries).lookup a = (entries.dlookup a).or (m.lookup a) := by
  induction entries generalizing m with
  | nil => rfl
  | cons e rest ih =>
    obtain ⟨hnotin, hrest⟩ := nodupKeys_cons.mp h
    show (insertAll (m.insert e.1 e.2) rest).lookup a = _
    rw [ih hrest]
    by_cases ha : e.1 = a
    · subst ha
      rw [dlookup_eq_none.mpr hnotin, dlookup_cons_eq]
      simp
    · rw [dlookup_cons_ne rest e (Ne.symm ha), lookup_insert_ne (Ne.symm ha)]

theorem lookup_insertAll_entries (m' : AList fun _ : κ => ν) (a : κ) :
    (insertAll m m'.entries).lookup a = (m'.lookup a).or (m.lookup a) :=
  lookup_insertAll m'.nodupKeys m a

def eraseAll (m : AList fun _ : κ => ν) (keys : List κ) : AList fun _ : κ => ν :=
  keys.foldl (fun m a => m.erase a) m

theorem lookup_eraseAll (keys : List κ) (a : κ) :
    (eraseAll m keys).lookup a = if a ∈ keys then none else m.lookup a := by
  induction keys generalizing m with
  | nil => simp [eraseAll]
  | cons b rest ih =>
    show (eraseAll (m.erase b) rest).lookup a = _
    rw [ih]
    by_cases ha : a = b
    · subst ha
      simp
    by_cases hrest : a ∈ rest
    · simp [hrest]
    · simp [hrest, ha, lookup_erase_ne ha]

theorem entries_perm {m m' : AList fun _ : κ => ν} (h : ∀ a, m.lookup a = m'.lookup a) :
    m.entries.Perm m'.entries :=
  lookup_ext m.nodupKeys m'.nodupKeys fun a v => by
    show v ∈ m.lookup a ↔ v ∈ m'.lookup a
    rw [h]

section

variable (w : κ → ν → Nat)

def totalBy (m : AList fun _ : κ => ν) : Nat := (m.entries.map fun e => w e.1 e.2).sum

def weightBy (m : AList fun _ : κ => ν) (a : κ) : Nat := ((m.lookup a).map (w a)).getD 0

theorem sum_kerase (a : κ) {l : List ((_ : κ) × ν)} (h : l.NodupKeys) :
    ((l.kerase a).map fun e => w e.1 e.2).sum + ((l.dlookup a).map (w a)).getD 0 =
      (l.map fun e => w e.1 e.2).sum := by
  induction l with
  | nil => rfl
  | cons e rest ih =>
    obtain ⟨hnotin, hrest⟩ := nodupKeys_cons.mp h
    by_cases ha : a = e.1
    · subst ha
      rw [kerase_cons_eq rfl, dlookup_cons_eq]
      simp [Nat.add_comm]
    rw [kerase_cons_ne ha, dlookup_cons_ne rest e ha]
    have := ih hrest
    simp only [map_cons, sum_cons]
    omega

variable (m : AList fun _ : κ => ν)

theorem totalBy_erase (a : κ) : totalBy w (m.erase a) + weightBy w m a = totalBy w m :=
  sum_kerase w a m.nodupKeys

theorem weightBy_le (a : κ) : weightBy w m a ≤ totalBy w m := by
  rw [← totalBy_erase w m a]
  exact Nat.le_add_left _ _

theorem totalBy_insert (a : κ) (v : ν) :
    totalBy w (m.insert a v) + weightBy w m a = totalBy w m + w a v := by
  have herase := sum_kerase w a m.nodupKeys
  have hinsert : totalBy w (m.insert a v) =
      w a v + ((m.entries.kerase a).map fun e => w e.1 e.2).sum := by
    unfold totalBy
    rw [entries_insert]
    simp
  unfold totalBy weightBy at *
  rw [hinsert]
  show _ + ((m.entries.dlookup a).map (w a)).getD 0 = _
  omega

theorem totalBy_congr {m m' : AList fun _ : κ => ν} (h : ∀ a, m.lookup a = m'.lookup a) :
    totalBy w m = totalBy w m' :=
  ((entries_perm h).map _).sum_nat

theorem weightBy_of_mem {m : AList fun _ : κ => ν} {e : (_ : κ) × ν} (h : e ∈ m.entries) :
    weightBy w m e.1 = w e.1 e.2 := by
  have hlookup : m.lookup e.1 = some e.2 := mem_lookup_iff.mpr h
  rw [weightBy, hlookup]
  rfl

theorem totalBy_eq_sum {s : Finset κ} (h : m.keys.toFinset ⊆ s) :
    totalBy w m = ∑ a ∈ s, weightBy w m a := by
  have hkeys : ∑ a ∈ m.keys.toFinset, weightBy w m a = totalBy w m := by
    rw [sum_toFinset _ m.keys_nodup]
    show ((m.entries.map Sigma.fst).map (weightBy w m)).sum = _
    rw [map_map]
    exact congrArg sum (map_congr_left fun e he => weightBy_of_mem w he)
  rw [← hkeys]
  refine Finset.sum_subset h fun a _ ha => ?_
  have hnone : m.lookup a = none :=
    lookup_eq_none.mpr fun hmem => ha (mem_toFinset.mpr hmem)
  rw [weightBy, hnone]
  rfl

theorem sum_weightBy_le (s : Finset κ) : ∑ a ∈ s, weightBy w m a ≤ totalBy w m := by
  rw [totalBy_eq_sum w m (s := m.keys.toFinset ∪ s) Finset.subset_union_left]
  exact Finset.sum_le_sum_of_subset Finset.subset_union_right

theorem totalBy_eq_of_weightBy_eq {m m' : AList fun _ : κ => ν}
    (h : ∀ a, weightBy w m a = weightBy w m' a) : totalBy w m = totalBy w m' := by
  rw [totalBy_eq_sum w m Finset.subset_union_left, totalBy_eq_sum w m' Finset.subset_union_right]
  exact Finset.sum_congr rfl fun a _ => h a

theorem totalBy_eraseAll {keys : List κ} (h : keys.Nodup) :
    totalBy w (eraseAll m keys) + (keys.map (weightBy w m)).sum = totalBy w m := by
  induction keys generalizing m with
  | nil => rfl
  | cons a rest ih =>
    obtain ⟨hnotin, hrest⟩ := nodup_cons.mp h
    have hweights : rest.map (weightBy w (m.erase a)) = rest.map (weightBy w m) := by
      refine map_congr_left fun b hb => ?_
      have hne : b ≠ a := fun heq => hnotin (heq ▸ hb)
      rw [weightBy, lookup_erase_ne hne, weightBy]
    have hih := ih (m.erase a) hrest
    rw [hweights] at hih
    have herase := totalBy_erase w m a
    show totalBy w (eraseAll (m.erase a) rest) + ((a :: rest).map (weightBy w m)).sum = _
    rw [map_cons, sum_cons]
    omega

end

variable (w : ν → Nat)

def total (m : AList fun _ : κ => ν) : Nat := (m.entries.map fun e => w e.2).sum

def weightAt (m : AList fun _ : κ => ν) (a : κ) : Nat := ((m.lookup a).map w).getD 0

variable (m : AList fun _ : κ => ν)

theorem total_erase (a : κ) : total w (m.erase a) + weightAt w m a = total w m :=
  totalBy_erase (fun _ => w) m a

theorem total_insert (a : κ) (v : ν) : total w (m.insert a v) + weightAt w m a = total w m + w v :=
  totalBy_insert (fun _ => w) m a v

theorem total_congr {m m' : AList fun _ : κ => ν} (h : ∀ a, m.lookup a = m'.lookup a) :
    total w m = total w m' :=
  totalBy_congr (fun _ => w) h

theorem total_change {m m' : AList fun _ : κ => ν} {a : κ}
    (h : ∀ b, b ≠ a → m'.lookup b = m.lookup b) :
    total w m' + weightAt w m a = total w m + weightAt w m' a := by
  cases hv : m'.lookup a with
  | none =>
    have heq : total w m' = total w (m.erase a) := total_congr w fun b => by
      by_cases hb : b = a
      · rw [hb, hv, lookup_erase]
      · rw [h b hb, lookup_erase_ne hb]
    rw [heq, total_erase]
    simp [weightAt, hv]
  | some v =>
    have heq : total w m' = total w (m.insert a v) := total_congr w fun b => by
      by_cases hb : b = a
      · rw [hb, hv, lookup_insert]
      · rw [h b hb, lookup_insert_ne hb]
    rw [heq, total_insert]
    simp [weightAt, hv]

theorem total_insertAll_insert (m' : AList fun _ : κ => ν) (a : κ) (v : ν) :
    total w (insertAll m (m'.insert a v).entries) + weightAt w (insertAll m m'.entries) a =
      total w (insertAll m m'.entries) + w v := by
  have hat : weightAt w (insertAll m (m'.insert a v).entries) a = w v := by
    rw [weightAt, lookup_insertAll_entries, lookup_insert]
    rfl
  rw [← hat]
  refine total_change w fun b hb => ?_
  rw [lookup_insertAll_entries, lookup_insert_ne hb, lookup_insertAll_entries]

theorem total_insertAll_erase (m' : AList fun _ : κ => ν) (a : κ) :
    total w (insertAll m (m'.erase a).entries) + weightAt w (insertAll m m'.entries) a =
      total w (insertAll m m'.entries) + weightAt w m a := by
  have hat : weightAt w (insertAll m (m'.erase a).entries) a = weightAt w m a := by
    rw [weightAt, lookup_insertAll_entries, lookup_erase]
    rfl
  rw [← hat]
  refine total_change w fun b hb => ?_
  rw [lookup_insertAll_entries, lookup_erase_ne hb, lookup_insertAll_entries]

end ZbxChain.FiniteMap
