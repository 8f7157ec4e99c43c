import Mathlib.Data.Finset.Card

/-!
# Quorums

A quorum of `n` members has more than two thirds of them, and at most `(n - 1) / 3` members
are faulty. A quorum has a correct member, and any two quorums have one in common.
-/

namespace ZbxChain.Quorum

open Finset

/-- `floor(2n/3) + 1`. -/
def size (n : Nat) : Nat := 2 * n / 3 + 1

def faults (n : Nat) : Nat := (n - 1) / 3

theorem faults_lt_size (n : Nat) : faults n < size n := by
  unfold faults size
  omega

theorem add_faults_lt (n : Nat) : n + faults n < size n + size n := by
  unfold faults size
  omega

variable {α : Type} {n : Nat} {members faulty A B : Finset α}

theorem exists_correct (hfaulty : faulty.card ≤ faults n) (hA : size n ≤ A.card) :
    ∃ a ∈ A, a ∉ faulty := by
  have hlt := faults_lt_size n
  exact exists_mem_notMem_of_card_lt_card (by omega)

theorem exists_correct_inter [DecidableEq α] (hmembers : members.card ≤ n)
    (hfaulty : faulty.card ≤ faults n) (hA : A ⊆ members) (hB : B ⊆ members)
    (hcardA : size n ≤ A.card) (hcardB : size n ≤ B.card) : ∃ a, a ∈ A ∧ a ∈ B ∧ a ∉ faulty := by
  have hunion : (A ∪ B).card ≤ n :=
    (card_le_card (union_subset hA hB)).trans hmembers
  have hinter := card_union_add_card_inter A B
  have hoverlap := add_faults_lt n
  have hmany : faulty.card < (A ∩ B).card := by omega
  obtain ⟨a, ha, hcorrect⟩ := exists_mem_notMem_of_card_lt_card hmany
  obtain ⟨haA, haB⟩ := mem_inter.mp ha
  exact ⟨a, haA, haB, hcorrect⟩

end ZbxChain.Quorum
