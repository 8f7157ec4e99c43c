import Mathlib.Order.Lattice
import Mathlib.Data.List.Pairwise

/-!
# Ordered maps

Maps as lists of entries in the order of their keys, with the operations of a search tree: look
up, insert, and remove the least key.
-/

namespace ZbxChain

open List

structure SortedMap (κ ν : Type) [LinearOrder κ] where
  entries : List (κ × ν)
  sorted : entries.Pairwise fun a b => a.1 < b.1

namespace SortedMap

variable {κ ν : Type} [LinearOrder κ]

def insertEntry (k : κ) (v : ν) : List (κ × ν) → List (κ × ν)
  | [] => [(k, v)]
  | e :: rest =>
    if k < e.1 then (k, v) :: e :: rest
    else if k = e.1 then (k, v) :: rest
    else e :: insertEntry k v rest

variable {l : List (κ × ν)} {m : SortedMap κ ν} {k : κ}

theorem mem_insertEntry {v : ν} {x : κ × ν} (h : x ∈ insertEntry k v l) : x = (k, v) ∨ x ∈ l := by
  induction l with
  | nil => exact .inl (mem_singleton.mp h)
  | cons e rest ih =>
    unfold insertEntry at h
    split at h
    · exact mem_cons.mp h
    split at h
    · rcases mem_cons.mp h with hx | hx
      · exact .inl hx
      · exact .inr (mem_cons_of_mem _ hx)
    rcases mem_cons.mp h with hx | hx
    · exact .inr (hx ▸ mem_cons_self)
    · exact (ih hx).imp_right (mem_cons_of_mem _)

theorem pairwise_insertEntry (k : κ) (v : ν) (h : l.Pairwise fun a b => a.1 < b.1) :
    (insertEntry k v l).Pairwise fun a b => a.1 < b.1 := by
  induction l with
  | nil => exact pairwise_singleton _ _
  | cons e rest ih =>
    obtain ⟨hhead, hrest⟩ := pairwise_cons.mp h
    unfold insertEntry
    split
    · next hlt =>
      refine pairwise_cons.mpr ⟨?_, h⟩
      intro b hb
      rcases mem_cons.mp hb with rfl | hb
      · exact hlt
      · exact lt_trans hlt (hhead b hb)
    · next hle =>
      split
      · next heq =>
        refine pairwise_cons.mpr ⟨?_, hrest⟩
        intro b hb
        rw [heq]
        exact hhead b hb
      · next hne =>
        refine pairwise_cons.mpr ⟨?_, ih hrest⟩
        intro b hb
        rcases mem_insertEntry hb with rfl | hb
        · exact lt_of_le_of_ne (not_lt.mp hle) (Ne.symm hne)
        · exact hhead b hb

def insert (m : SortedMap κ ν) (k : κ) (v : ν) : SortedMap κ ν :=
  ⟨insertEntry k v m.entries, pairwise_insertEntry k v m.sorted⟩

def empty : SortedMap κ ν := ⟨[], Pairwise.nil⟩

def getEntry (k : κ) : List (κ × ν) → Option ν
  | [] => none
  | e :: rest => if e.1 = k then some e.2 else getEntry k rest

def get (m : SortedMap κ ν) (k : κ) : Option ν := getEntry k m.entries

def length (m : SortedMap κ ν) : Nat := m.entries.length

def popFirst (m : SortedMap κ ν) : SortedMap κ ν :=
  ⟨m.entries.tail, m.sorted.sublist (tail_sublist _)⟩

def IsFirst (m : SortedMap κ ν) (k : κ) : Prop :=
  (m.get k).isSome ∧ ∀ a, (m.get a).isSome → k ≤ a

/-! ## Observations -/

theorem getEntry_insertEntry (k a : κ) (v : ν) (l : List (κ × ν)) :
    getEntry a (insertEntry k v l) = if a = k then some v else getEntry a l := by
  induction l with
  | nil => simp [insertEntry, getEntry, eq_comm]
  | cons e rest ih =>
    unfold insertEntry
    split
    · next hlt => simp [getEntry, eq_comm]
    split
    · next heq =>
      simp only [getEntry, ← heq]
      by_cases ha : a = k
      · simp [ha]
      · simp [ha, Ne.symm ha]
    · next hne =>
      simp only [getEntry, ih]
      by_cases ha : e.1 = a
      · rw [if_pos ha, if_pos ha, if_neg (fun h => hne (h.symm.trans ha.symm))]
      · rw [if_neg ha, if_neg ha]

@[simp] theorem get_insert (m : SortedMap κ ν) (k a : κ) (v : ν) :
    (m.insert k v).get a = if a = k then some v else m.get a :=
  getEntry_insertEntry k a v m.entries

@[simp] theorem get_empty (k : κ) : (empty : SortedMap κ ν).get k = none := rfl

theorem getEntry_isSome : (getEntry k l).isSome ↔ ∃ e ∈ l, e.1 = k := by
  induction l with
  | nil => simp [getEntry]
  | cons e rest ih =>
    unfold getEntry
    by_cases he : e.1 = k
    · simp [he]
    · simp [he, ih]

theorem length_insertEntry (k : κ) (v : ν) (h : l.Pairwise fun a b => a.1 < b.1) :
    (insertEntry k v l).length = if (getEntry k l).isSome then l.length else l.length + 1 := by
  induction l with
  | nil => rfl
  | cons e rest ih =>
    obtain ⟨hhead, hrest⟩ := pairwise_cons.mp h
    unfold insertEntry
    split
    · next hlt =>
      -- the key is less than every key of the list
      have hnone : ¬ (getEntry k (e :: rest)).isSome := by
        rw [getEntry_isSome]
        rintro ⟨b, hb, rfl⟩
        rcases mem_cons.mp hb with rfl | hb
        · exact lt_irrefl _ hlt
        · exact lt_irrefl _ (lt_trans hlt (hhead b hb))
      rw [if_neg hnone]
      rfl
    · split
      · next heq => simp [getEntry, heq]
      · next hne =>
        have hget : getEntry k (e :: rest) = getEntry k rest := if_neg (Ne.symm hne)
        rw [hget, length_cons, ih hrest, length_cons]
        split <;> rfl

theorem length_insert (m : SortedMap κ ν) (k : κ) (v : ν) :
    (m.insert k v).length = if (m.get k).isSome then m.length else m.length + 1 :=
  length_insertEntry k v m.sorted

theorem exists_isFirst (h : 0 < m.length) : ∃ k, m.IsFirst k := by
  obtain ⟨entries, hsorted⟩ := m
  cases entries with
  | nil => exact absurd h (Nat.lt_irrefl 0)
  | cons e rest =>
    refine ⟨e.1, by simp [get, getEntry], ?_⟩
    intro a ha
    obtain ⟨b, hb, rfl⟩ := getEntry_isSome.mp ha
    rcases mem_cons.mp hb with rfl | hb
    · exact le_rfl
    · exact le_of_lt ((pairwise_cons.mp hsorted).1 b hb)

theorem get_popFirst (h : m.IsFirst k) (a : κ) :
    m.popFirst.get a = if a = k then none else m.get a := by
  obtain ⟨entries, hsorted⟩ := m
  cases entries with
  | nil => exact absurd h.1 (by simp [get, getEntry])
  | cons e rest =>
    obtain ⟨hhead, -⟩ := pairwise_cons.mp hsorted
    have hk : e.1 = k := by
      apply le_antisymm
      · obtain ⟨b, hb, rfl⟩ := getEntry_isSome.mp h.1
        rcases mem_cons.mp hb with rfl | hb
        · exact le_rfl
        · exact le_of_lt (hhead b hb)
      · exact h.2 e.1 (by simp [get, getEntry])
    subst hk
    show getEntry a rest = if a = e.1 then none else getEntry a (e :: rest)
    by_cases ha : a = e.1
    · rw [if_pos ha, ← Option.not_isSome_iff_eq_none, getEntry_isSome]
      rintro ⟨b, hb, rfl⟩
      exact lt_irrefl _ (ha ▸ hhead b hb)
    · rw [if_neg ha]
      exact (if_neg (Ne.symm ha)).symm

end SortedMap

end ZbxChain
