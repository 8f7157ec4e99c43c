import Mathlib.Data.List.FinRange
import ZbxChain.Crypto.Keccak

/-!
# Sub-committees

`ProposerElection::elect_committee` of `zbx-consensus/src/proposer.rs`: a partial shuffle of the
places in the validator list, drawn from hashes of the epoch, the round and the place.
-/

namespace ZbxChain

structure ProposerElection where
  validators : List Address

namespace ProposerElection

/-- `idx_raw` of draw `i`. -/
def drawHash (round : UInt64) (epochHash : H256) (i : Nat) : Nat :=
  beNat ((keccak256 (epochHash.toBytes ++ beBytes 8 round.toNat ++ beBytes 8 i)).toBytes.take 8)

variable (e : ProposerElection) (idxRaw : Nat → Nat)

abbrev n : Nat := e.validators.length

/-- The draws that are left, from draw `i` on. No index is out of bounds. -/
def draws : (left i : Nat) → i + left ≤ e.n → Vector (Fin e.n) e.n → List Address → List Address
  | 0, _, _, _, selected => selected
  | left + 1, i, h, indices, selected =>
    have hpick := Nat.mod_lt (idxRaw i) (show 0 < e.n - i by omega)
    let pick := idxRaw i % (e.n - i)
    draws left (i + 1) (by omega) (indices.swap i (i + pick))
      (selected ++ [e.validators.get indices[i + pick]])

def electCommittee (round : UInt64) (epochHash : H256) (size : Nat) : List Address :=
  if e.n = 0 ∨ size = 0 then []
  else if h : e.n ≤ size then e.validators
  else draws e (drawHash round epochHash) size 0 (by omega) (Vector.ofFn id) []

variable {e}

theorem take_swap {n : Nat} {indices : Vector (Fin n) n} {i j : Nat} (hij : i ≤ j) (hj : j < n) :
    (indices.swap i j).toList.take (i + 1) = indices.toList.take i ++ [indices[j]] := by
  apply List.ext_getElem
  · simp
    omega
  intro k hk _
  have hk : k < i + 1 := by simp at hk; omega
  grind

theorem draws_eq {left i : Nat} (h : i + left ≤ e.n) {indices : Vector (Fin e.n) e.n}
    (hnd : indices.toList.Nodup) : ∃ drawn : List (Fin e.n), drawn.Nodup ∧ drawn.length = i + left ∧
      draws e idxRaw left i h indices ((indices.toList.take i).map e.validators.get) =
        drawn.map e.validators.get := by
  induction left generalizing i indices with
  | zero =>
    refine ⟨_, hnd.sublist (List.take_sublist i _), ?_, rfl⟩
    simp only [List.length_take, Vector.length_toList]
    omega
  | succ left ih =>
    have hpick := Nat.mod_lt (idxRaw i) (show 0 < e.n - i by omega)
    have hj : i + idxRaw i % (e.n - i) < e.n := by omega
    have hperm : (indices.swap i (i + idxRaw i % (e.n - i))).toList.Perm indices.toList :=
      (Vector.swap_perm (by omega) hj).toList
    obtain ⟨drawn, hd, hl, heq⟩ := ih (i := i + 1) (by omega) (hperm.nodup_iff.mpr hnd)
    rw [take_swap (by omega) hj, List.map_append] at heq
    exact ⟨drawn, hd, by omega, heq⟩

theorem electCommittee_members (h : e.validators.Nodup) (round : UInt64) (epochHash : H256)
    (size : Nat) : (e.electCommittee round epochHash size).length = min size e.n ∧
    (e.electCommittee round epochHash size).Nodup ∧
    ∀ v ∈ e.electCommittee round epochHash size, v ∈ e.validators := by
  unfold electCommittee
  split
  · simp
    omega
  split
  next hall => exact ⟨(min_eq_right hall).symm, h, fun v hv => hv⟩
  have hstart : (Vector.ofFn id : Vector (Fin e.n) e.n).toList.Nodup := by
    rw [Vector.toList_ofFn, List.ofFn_id]
    exact List.nodup_finRange _
  obtain ⟨drawn, hnd, hlen, heq⟩ :=
    draws_eq (drawHash round epochHash) (show 0 + size ≤ e.n by omega) hstart
  rw [List.take_zero, List.map_nil] at heq
  rw [heq, List.length_map]
  refine ⟨by omega, hnd.map (List.nodup_iff_injective_get.mp h), ?_⟩
  intro v hv
  obtain ⟨k, -, rfl⟩ := List.mem_map.mp hv
  exact List.get_mem _ _

theorem two_of_three_elected : let committee := electCommittee ⟨[1, 2, 3]⟩ 7 0 2
    committee.length = 2 ∧ committee.Nodup ∧ ∀ v ∈ committee, v ∈ [1, 2, 3] :=
  electCommittee_members (e := ⟨[1, 2, 3]⟩) (by decide) 7 0 2

end ProposerElection

end ZbxChain
