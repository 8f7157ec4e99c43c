import Mathlib.Data.Finset.Card
import Mathlib.Data.Finset.Dedup

/-!
# Marking what is reachable

A traversal keeps a stack of nodes to visit and a list of the keys that it has visited. Several
nodes may have one key, and then only the first of them that is met is expanded.
-/

namespace ZbxChain.Marking

open List

variable {ν κ : Type}

/-- Nodes that are reachable from the roots. Some nodes are never visited. -/
inductive Reach (skip : ν → Prop) (succ : ν → List ν) (roots : List ν) : ν → Prop
  | root {x : ν} (hx : x ∈ roots) (hskip : ¬ skip x) : Reach skip succ roots x
  | step {x y : ν} (hx : Reach skip succ roots x) (hy : y ∈ succ x) (hskip : ¬ skip y) :
      Reach skip succ roots y

variable (key : ν → κ) (skip : ν → Prop) (succ : ν → List ν)

def Covered (todo : List ν) (live : List κ) (x : ν) : Prop :=
  skip x ∨ key x ∈ live ∨ x ∈ todo

structure Progress (roots todo : List ν) (live : List κ) : Prop where
  pending : ∀ x ∈ todo, skip x ∨ Reach skip succ roots x
  expanded : ∀ k ∈ live, ∃ x, Reach skip succ roots x ∧ key x = k ∧
    ∀ y ∈ succ x, Covered key skip todo live y
  roots : ∀ x ∈ roots, Covered key skip todo live x

variable {key skip succ} {roots todo : List ν} {live : List κ} {x : ν}

theorem Progress.start (roots : List ν) : Progress key skip succ roots roots [] where
  pending := by
    intro x hx
    by_cases hskip : skip x
    · exact .inl hskip
    · exact .inr (.root hx hskip)
  expanded := by
    intro k hk
    cases hk
  roots := fun x hx => .inr (.inr hx)

theorem Progress.drop (h : Progress key skip succ roots (x :: todo) live)
    (hx : skip x ∨ key x ∈ live) : Progress key skip succ roots todo live := by
  have hcovered : ∀ y, Covered key skip (x :: todo) live y → Covered key skip todo live y := by
    rintro y (hy | hy | hy)
    · exact .inl hy
    · exact .inr (.inl hy)
    rcases mem_cons.mp hy with rfl | hy
    · exact hx.imp_right .inl
    · exact .inr (.inr hy)
  refine ⟨fun y hy => h.pending y (mem_cons_of_mem _ hy), ?_,
    fun y hy => hcovered y (h.roots y hy)⟩
  intro k hk
  obtain ⟨z, hz, hkey, hsucc⟩ := h.expanded k hk
  exact ⟨z, hz, hkey, fun y hy => hcovered y (hsucc y hy)⟩

theorem Progress.visit (h : Progress key skip succ roots (x :: todo) live) (hskip : ¬ skip x) :
    Progress key skip succ roots (succ x ++ todo) (key x :: live) := by
  have hreach : Reach skip succ roots x :=
    (h.pending x mem_cons_self).resolve_left hskip
  have hcovered : ∀ y, Covered key skip (x :: todo) live y →
      Covered key skip (succ x ++ todo) (key x :: live) y := by
    rintro y (hy | hy | hy)
    · exact .inl hy
    · exact .inr (.inl (mem_cons_of_mem _ hy))
    rcases mem_cons.mp hy with rfl | hy
    · exact .inr (.inl mem_cons_self)
    · exact .inr (.inr (mem_append_right _ hy))
  refine ⟨?_, ?_, fun y hy => hcovered y (h.roots y hy)⟩
  · intro y hy
    rcases mem_append.mp hy with hy | hy
    · by_cases hyskip : skip y
      · exact .inl hyskip
      · exact .inr (.step hreach hy hyskip)
    · exact h.pending y (mem_cons_of_mem _ hy)
  intro k hk
  rcases mem_cons.mp hk with rfl | hk
  · exact ⟨x, hreach, rfl, fun y hy => .inr (.inr (mem_append_left _ hy))⟩
  · obtain ⟨z, hz, hkey, hsucc⟩ := h.expanded k hk
    exact ⟨z, hz, hkey, fun y hy => hcovered y (hsucc y hy)⟩

theorem Progress.mem_live_iff (h : Progress key skip succ roots [] live)
    (halike : ∀ x x', Reach skip succ roots x → Reach skip succ roots x' → key x = key x' →
      ∀ y ∈ succ x, ¬ skip y → ∃ y' ∈ succ x', ¬ skip y' ∧ key y' = key y) (k : κ) :
    k ∈ live ↔ ∃ x, Reach skip succ roots x ∧ key x = k := by
  constructor
  · intro hk
    obtain ⟨x, hx, hkey, -⟩ := h.expanded k hk
    exact ⟨x, hx, hkey⟩
  rintro ⟨x, hx, rfl⟩
  induction hx with
  | root hx hskip =>
    rcases h.roots _ hx with hs | hlive | htodo
    · exact absurd hs hskip
    · exact hlive
    · cases htodo
  | @step x y hx hy hskip ih =>
    obtain ⟨x', hx', hkey, hsucc⟩ := h.expanded _ ih
    obtain ⟨y', hy', hskip', hkey'⟩ := halike x x' hx hx' hkey.symm y hy hskip
    rcases hsucc y' hy' with hs | hlive | htodo
    · exact absurd hs hskip'
    · exact hkey' ▸ hlive
    · cases htodo

/-! ## Ending -/

variable [DecidableEq κ]

def unvisited (all live : List κ) : Nat := (all.toFinset \ live.toFinset).card

theorem unvisited_cons_lt {all live : List κ} {k : κ} (hall : k ∈ all) (hnew : k ∉ live) :
    unvisited all (k :: live) < unvisited all live := by
  refine Finset.card_lt_card (Finset.ssubset_iff_subset_ne.mpr ⟨?_, ?_⟩)
  · refine Finset.sdiff_subset_sdiff subset_rfl ?_
    rw [toFinset_cons]
    exact Finset.subset_insert k live.toFinset
  intro heq
  have hmem : k ∈ all.toFinset \ live.toFinset := by simp [hall, hnew]
  rw [← heq] at hmem
  simp at hmem

end ZbxChain.Marking
