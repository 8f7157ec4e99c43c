import Mathlib.Init

/-!
# Runs

A run applies the steps of a list in order. `Meets C` says that every step meets a condition
in the state that it starts from, `Always P` that every state of the run has a property.
-/

namespace ZbxChain

open List

universe u v

variable {σ : Type u} {τ : Type v} (step : σ → τ → σ)

def Always (P : σ → Prop) (s : σ) (ts : List τ) : Prop :=
  ∀ before after, ts = before ++ after → P (before.foldl step s)

def Meets (C : σ → τ → Prop) (s : σ) (ts : List τ) : Prop :=
  ∀ before t after, ts = before ++ t :: after → C (before.foldl step s) t

variable {step} {P I : σ → Prop} {C : σ → τ → Prop} {s : σ} {t : τ} {ts : List τ}

theorem always_nil : Always step P s [] ↔ P s := by
  refine ⟨fun h => h [] [] rfl, fun h before after heq => ?_⟩
  obtain ⟨rfl, -⟩ := append_eq_nil_iff.mp heq.symm
  exact h

theorem always_cons : Always step P s (t :: ts) ↔ P s ∧ Always step P (step s t) ts := by
  constructor
  · intro h
    refine ⟨h [] (t :: ts) rfl, fun before after heq => h (t :: before) after ?_⟩
    rw [heq]
    rfl
  rintro ⟨hs, hrest⟩ before after heq
  cases before with
  | nil => exact hs
  | cons b before =>
    obtain ⟨rfl, htail⟩ := cons.inj heq
    exact hrest before after htail

theorem meets_nil : Meets step C s [] := by
  intro before t after heq
  have hlen := congrArg length heq
  rw [length_append, length_cons, length_nil] at hlen
  omega

theorem meets_cons : Meets step C s (t :: ts) ↔ C s t ∧ Meets step C (step s t) ts := by
  constructor
  · intro h
    refine ⟨h [] t ts rfl, fun before t' after heq => h (t :: before) t' after ?_⟩
    rw [heq]
    rfl
  rintro ⟨hs, hrest⟩ before t' after heq
  cases before with
  | nil =>
    obtain ⟨rfl, -⟩ := cons.inj heq
    exact hs
  | cons b before =>
    obtain ⟨rfl, htail⟩ := cons.inj heq
    exact hrest before t' after htail

theorem meets_append {ts' : List τ} :
    Meets step C s (ts ++ ts') ↔ Meets step C s ts ∧ Meets step C (ts.foldl step s) ts' := by
  induction ts generalizing s with
  | nil => exact ⟨fun h => ⟨meets_nil, h⟩, And.right⟩
  | cons t ts ih => rw [cons_append, meets_cons, meets_cons, ih, and_assoc, foldl_cons]

theorem foldl_of_meets (hstep : ∀ s t, I s → C s t → I (step s t)) (hs : I s)
    (h : Meets step C s ts) : I (ts.foldl step s) := by
  induction ts generalizing s with
  | nil => exact hs
  | cons t ts ih =>
    obtain ⟨ht, hrest⟩ := meets_cons.mp h
    exact ih (hstep s t hs ht) hrest

variable (hI : ∀ s t, I s → I (step s t))

include hI

theorem always_iff_meets (hstep : ∀ s t, I s → P s → (P (step s t) ↔ C s t)) (hs : I s) (hp : P s) :
    Always step P s ts ↔ Meets step C s ts := by
  induction ts generalizing s with
  | nil => exact ⟨fun _ => meets_nil, fun _ => always_nil.mpr hp⟩
  | cons t ts ih =>
    rw [always_cons, meets_cons]
    constructor
    · rintro ⟨-, hrest⟩
      have hp' : P (step s t) := hrest [] ts rfl
      exact ⟨(hstep s t hs hp).mp hp', (ih (hI s t hs) hp').mp hrest⟩
    · rintro ⟨hc, hrest⟩
      exact ⟨hp, (ih (hI s t hs) ((hstep s t hs hp).mpr hc)).mpr hrest⟩

omit hI

theorem of_foldl (hI : ∀ t ∈ ts, ∀ s, I s → I (step s t))
    (hback : ∀ t ∈ ts, ∀ s, I s → P (step s t) → P s) (hs : I s) (hlast : P (ts.foldl step s)) :
    P s := by
  induction ts generalizing s with
  | nil => exact hlast
  | cons t ts ih =>
    obtain ⟨hIt, hI⟩ := forall_mem_cons.mp hI
    obtain ⟨hbackt, hback⟩ := forall_mem_cons.mp hback
    exact hbackt s hs (ih hI hback (hIt s hs) hlast)

theorem last_iff_meets (hI : ∀ t ∈ ts, ∀ s, I s → I (step s t))
    (hstep : ∀ t ∈ ts, ∀ s, I s → P s → (P (step s t) ↔ C s t))
    (hback : ∀ t ∈ ts, ∀ s, I s → P (step s t) → P s) (hs : I s) (hp : P s) :
    P (ts.foldl step s) ↔ Meets step C s ts := by
  induction ts generalizing s with
  | nil => exact iff_of_true hp meets_nil
  | cons t ts ih =>
    obtain ⟨hIt, hI⟩ := forall_mem_cons.mp hI
    obtain ⟨hstept, hstep⟩ := forall_mem_cons.mp hstep
    obtain ⟨-, hback⟩ := forall_mem_cons.mp hback
    rw [meets_cons, ← hstept s hs hp, foldl_cons]
    constructor
    · intro hlast
      have hnext := of_foldl hI hback (hIt s hs) hlast
      exact ⟨hnext, (ih hI hstep hback (hIt s hs) hnext).mp hlast⟩
    · rintro ⟨hnext, hrest⟩
      exact (ih hI hstep hback (hIt s hs) hnext).mpr hrest

end ZbxChain
