import Mathlib.Data.List.Infix
import Mathlib.Logic.Function.Basic

/-!
# Path-compressed radix trees

Radix trees over an arbitrary alphabet, with values at branch points so that one key may be a
prefix of another. A tree is read as the finite map `lookup`.
-/

namespace ZbxChain.Radix

open List Function

universe u v

inductive Tree (α : Type u) (β : Type v)
  | nil
  | leaf (path : List α) (value : β)
  | ext (path : List α) (child : Tree α β)
  | branch (children : α → Tree α β) (value : Option β)

variable {α : Type u} {β : Type v}

variable (p : List α)

theorem leaf_ne_nil (v : β) : Tree.leaf p v ≠ .nil := by
  intro h
  cases h

theorem ext_ne_nil (c : Tree α β) : Tree.ext p c ≠ .nil := by
  intro h
  cases h

theorem branch_ne_nil (cs : α → Tree α β) (v : Option β) : Tree.branch cs v ≠ .nil := by
  intro h
  cases h

/-! ## Reading -/

section

variable [DecidableEq α]

def lookup : Tree α β → List α → Option β
  | .nil, _ => none
  | .leaf p v, k => if k = p then some v else none
  | .ext p c, k => if p <+: k then lookup c (k.drop p.length) else none
  | .branch _ v, [] => v
  | .branch cs _, a :: k => lookup (cs a) k

@[simp] theorem lookup_nil (k : List α) : lookup (.nil : Tree α β) k = none := rfl

@[simp] theorem lookup_leaf (p k : List α) (v : β) :
    lookup (.leaf p v) k = if k = p then some v else none := rfl

@[simp] theorem lookup_ext (p k : List α) (c : Tree α β) :
    lookup (.ext p c) k = if p <+: k then lookup c (k.drop p.length) else none := rfl

variable (cs : α → Tree α β) (v : Option β)

@[simp] theorem lookup_branch_nil : lookup (.branch cs v) [] = v := rfl

@[simp] theorem lookup_branch_cons (a : α) (k : List α) :
    lookup (.branch cs v) (a :: k) = lookup (cs a) k := rfl

theorem lookup_ext_append (p k : List α) (c : Tree α β) :
    lookup (.ext p c) (p ++ k) = lookup c k := by
  simp

end

/-! ## Paths -/

def commonPrefix [DecidableEq α] : List α → List α → List α
  | a :: k, b :: l => if a = b then a :: commonPrefix k l else []
  | _, _ => []

section

variable [DecidableEq α]

theorem commonPrefix_spec (k l : List α) :
    ∃ k' l', k = commonPrefix k l ++ k' ∧ l = commonPrefix k l ++ l' ∧
      ∀ a b k'' l'', k' = a :: k'' → l' = b :: l'' → a ≠ b := by
  induction k generalizing l with
  | nil => exact ⟨[], l, rfl, rfl, by simp⟩
  | cons a k ih =>
    cases l with
    | nil => exact ⟨a :: k, [], rfl, rfl, by simp⟩
    | cons b l =>
      by_cases hab : a = b
      · subst hab
        obtain ⟨k', l', hk, hl, hne⟩ := ih l
        refine ⟨k', l', ?_, ?_, hne⟩
        · simpa [commonPrefix] using hk
        · simpa [commonPrefix] using hl
      refine ⟨a :: k, b :: l, by simp [commonPrefix, hab], by simp [commonPrefix, hab], ?_⟩
      rintro x y k'' l'' ⟨rfl, -⟩ ⟨rfl, -⟩
      exact hab

theorem commonPrefix_append (c k l : List α) :
    commonPrefix (c ++ k) (c ++ l) = c ++ commonPrefix k l := by
  induction c with
  | nil => rfl
  | cons a c ih => simp [commonPrefix, ih]

theorem commonPrefix_eq_right_iff (k l : List α) : commonPrefix k l = l ↔ l <+: k := by
  constructor
  · intro h
    obtain ⟨k', l', hk, -, -⟩ := commonPrefix_spec k l
    rw [h] at hk
    exact ⟨k', hk.symm⟩
  rintro ⟨m, rfl⟩
  have h := commonPrefix_append l m []
  simp only [append_nil] at h
  rw [h]
  cases m <;> simp [commonPrefix]

theorem length_commonPrefix_eq_right_iff (k l : List α) :
    (commonPrefix k l).length = l.length ↔ l <+: k := by
  rw [← commonPrefix_eq_right_iff]
  constructor
  · intro h
    obtain ⟨k', l', -, hl, -⟩ := commonPrefix_spec k l
    have hlen := congrArg length hl
    rw [length_append, h] at hlen
    have hnil : l' = [] := length_eq_zero_iff.mp (by omega)
    rw [hnil, append_nil] at hl
    exact hl.symm
  · intro h
    rw [h]

end

/-! ## Operations -/

abbrev Fan (α : Type u) (β : Type v) := (α → Tree α β) × Option β

def place [DecidableEq α] (fan : Fan α β) (k : List α) (v : β) : Fan α β :=
  match k with
  | [] => (fan.1, some v)
  | a :: k => (update fan.1 a (.leaf k v), fan.2)

def wrap (p : List α) (fan : Fan α β) : Tree α β :=
  match p with
  | [] => .branch fan.1 fan.2
  | _ => .ext p (.branch fan.1 fan.2)

def graft (p : List α) : Tree α β → Tree α β
  | .nil => .nil
  | .leaf q v => .leaf (p ++ q) v
  | .ext q c => .ext (p ++ q) c
  | .branch cs v => .ext p (.branch cs v)

def hang (p : List α) (c : Tree α β) : Tree α β :=
  match p with
  | [] => c
  | _ => .ext p c

theorem wrap_cons (a : α) (p : List α) (fan : Fan α β) :
    wrap (a :: p) fan = .ext (a :: p) (.branch fan.1 fan.2) := rfl

theorem hang_cons (a : α) (p : List α) (c : Tree α β) : hang (a :: p) c = .ext (a :: p) c := rfl

def insert [DecidableEq α] : Tree α β → List α → β → Tree α β
  | .nil, k, v => .leaf k v
  | .leaf p w, k, v =>
    if p = k then .leaf p v
    else
      let c := commonPrefix k p
      wrap c (place (place (fun _ => .nil, none) (p.drop c.length) w) (k.drop c.length) v)
  | .ext p child, k, v =>
    if p <+: k then .ext p (insert child (k.drop p.length) v)
    else
      let c := commonPrefix k p
      match p.drop c.length with
      | [] => .ext p child
      | a :: p' =>
        wrap c (place (update (fun _ => .nil) a (hang p' child), none)
          (k.drop c.length) v)
  | .branch cs _, [], v => .branch cs (some v)
  | .branch cs w, a :: k, v => .branch (update cs a (insert (cs a) k v)) w

open Classical in
noncomputable def collapse (cs : α → Tree α β) (v : Option β) : Tree α β :=
  if h : v = none ∧ ∃ a, cs a ≠ .nil ∧ ∀ b, b ≠ a → cs b = .nil then
    graft [h.2.choose] (cs h.2.choose)
  else if ∀ a, cs a = .nil then
    match v with
    | none => .nil
    | some w => .leaf [] w
  else .branch cs v

noncomputable def delete [DecidableEq α] : Tree α β → List α → Tree α β × Bool
  | .nil, _ => (.nil, false)
  | .leaf p v, k => if k = p then (.nil, true) else (.leaf p v, false)
  | .ext p c, k =>
    if p <+: k then
      let r := delete c (k.drop p.length)
      if r.2 then (graft p r.1, true) else (.ext p c, false)
    else (.ext p c, false)
  | .branch cs v, [] => if v.isSome then (collapse cs none, true) else (.branch cs v, false)
  | .branch cs v, a :: k =>
    let r := delete (cs a) k
    if r.2 then (collapse (update cs a r.1) v, true) else (.branch cs v, false)

/-! ## The operations as map operations -/

variable [DecidableEq α]

variable (p k : List α) (fan : Fan α β)

theorem lookup_wrap_append : lookup (wrap p fan) (p ++ k) = lookup (.branch fan.1 fan.2) k := by
  cases p with
  | nil => rfl
  | cons a p => exact lookup_ext_append _ _ _

theorem lookup_wrap_outside {p k : List α} (h : ¬ p <+: k) : lookup (wrap p fan) k = none := by
  cases p with
  | nil => exact absurd nil_prefix h
  | cons a p => simp [wrap, h]

theorem lookup_place {fan : Fan α β} {k : List α} (v : β)
    (hfree : ∀ a k', k = a :: k' → fan.1 a = .nil) (l : List α) :
    lookup (.branch (place fan k v).1 (place fan k v).2) l =
      if l = k then some v else lookup (.branch fan.1 fan.2) l := by
  cases k with
  | nil => cases l <;> simp [place]
  | cons a k =>
    cases l with
    | nil => simp [place]
    | cons b l =>
      by_cases hab : b = a
      · subst hab
        by_cases hl : l = k <;> simp [place, hfree b k rfl, hl]
      · simp [place, hab]

variable (c : Tree α β)

theorem lookup_hang_append : lookup (hang p c) (p ++ k) = lookup c k := by
  cases p with
  | nil => rfl
  | cons a p => exact lookup_ext_append _ _ _

theorem lookup_hang_outside {p k : List α} (h : ¬ p <+: k) : lookup (hang p c) k = none := by
  cases p with
  | nil => exact absurd nil_prefix h
  | cons a p => simp [hang, h]

theorem lookup_emptyFan (l : List α) :
    lookup (.branch (fun _ => .nil) none : Tree α β) l = none := by
  cases l <;> rfl

theorem lookup_insert_leaf (l : List α) (w v : β) :
    lookup (insert (.leaf p w) k v) l = if l = k then some v else lookup (.leaf p w) l := by
  by_cases hpk : p = k
  · subst hpk
    by_cases hl : l = p <;> simp [insert, hl]
  obtain ⟨k', p', hk, hp, hne⟩ := commonPrefix_spec k p
  simp only [insert, if_neg hpk]
  generalize commonPrefix k p = c at hk hp
  subst hk hp
  simp only [drop_left]
  by_cases hc : c <+: l
  · obtain ⟨m, rfl⟩ := hc
    rw [lookup_wrap_append, lookup_place, lookup_place, lookup_emptyFan]
    · simp
    · intros; rfl
    intro a k'' hk''
    cases p' with
    | nil => rfl
    | cons b p' => simp [place, hne a b k'' p' hk'' rfl]
  · have hlk : l ≠ c ++ k' := fun h => hc (h ▸ prefix_append c k')
    have hlp : l ≠ c ++ p' := fun h => hc (h ▸ prefix_append c p')
    rw [lookup_wrap_outside _ hc]
    simp [hlk, hlp]

theorem lookup_insert_ext_split {p k : List α} (hpk : ¬ p <+: k) (c : Tree α β) (v : β)
    (l : List α) :
    lookup (insert (.ext p c) k v) l = if l = k then some v else lookup (.ext p c) l := by
  obtain ⟨k', p', hk, hp, hne⟩ := commonPrefix_spec k p
  simp only [insert, if_neg hpk]
  generalize commonPrefix k p = d at hk hp
  subst hk hp
  simp only [drop_left]
  cases p' with
  | nil =>
    rw [append_nil] at hpk
    exact absurd (prefix_append d k') hpk
  | cons a p' =>
    by_cases hd : d <+: l
    · obtain ⟨m, rfl⟩ := hd
      rw [lookup_wrap_append, lookup_place]
      · cases m with
        | nil =>
          have hshort : ¬ d ++ a :: p' <+: d := by
            intro h
            have := h.length_le
            simp only [length_append, length_cons] at this
            omega
          simp [hshort]
        | cons b m =>
          by_cases hba : b = a
          · subst hba
            by_cases hpm : p' <+: m
            · obtain ⟨m, rfl⟩ := hpm
              have := lookup_ext_append (d ++ b :: p') m c
              simp only [append_assoc, cons_append] at this
              simp [lookup_hang_append, this, -lookup_ext]
            · simp [lookup_hang_outside _ hpm, hpm]
          · simp [update_of_ne hba, Ne.symm hba]
      · intro b k'' hk''
        simp [hne b a k'' p' hk'' rfl]
    · have hlk : l ≠ d ++ k' := fun h => hd (h ▸ prefix_append d k')
      have hdp : ¬ d ++ a :: p' <+: l := fun h => hd ((prefix_append _ _).trans h)
      rw [lookup_wrap_outside _ hd]
      simp [hlk, hdp]

variable (t : Tree α β)

theorem lookup_insert (k l : List α) (v : β) :
    lookup (insert t k v) l = if l = k then some v else lookup t l := by
  induction t generalizing k l with
  | nil => simp [insert]
  | leaf p w => exact lookup_insert_leaf p k l w v
  | ext p c ih =>
    by_cases hpk : p <+: k
    · obtain ⟨k, rfl⟩ := hpk
      simp only [insert, prefix_append, if_true, drop_left]
      by_cases hpl : p <+: l
      · obtain ⟨l, rfl⟩ := hpl
        simp [ih]
      · have hlk : l ≠ p ++ k := fun h => hpl (h ▸ prefix_append p k)
        simp [hpl, hlk]
    · exact lookup_insert_ext_split hpk c v l
  | branch cs w ih =>
    cases k with
    | nil => cases l <;> simp [insert]
    | cons a k =>
      cases l with
      | nil => simp [insert]
      | cons b l =>
        by_cases hba : b = a
        · subst hba
          simp [insert, ih]
        · simp [insert, hba]

theorem lookup_graft_append : lookup (graft p t) (p ++ k) = lookup t k := by
  cases t with
  | nil => rfl
  | leaf q v => simp [graft]
  | ext q c => simp [graft, prefix_append_right_inj]
  | branch cs v => exact lookup_ext_append _ _ _

theorem lookup_graft_outside {p k : List α} (h : ¬ p <+: k) : lookup (graft p t) k = none := by
  cases t with
  | nil => rfl
  | leaf q v =>
    have hne : k ≠ p ++ q := fun he => h (he ▸ prefix_append p q)
    simp [graft, hne]
  | ext q c =>
    have hnp : ¬ p ++ q <+: k := fun he => h ((prefix_append p q).trans he)
    simp [graft, hnp]
  | branch cs v => simp [graft, h]

theorem lookup_collapse (cs : α → Tree α β) (v : Option β) (l : List α) :
    lookup (collapse cs v) l = lookup (.branch cs v) l := by
  unfold collapse
  split
  · next h =>
    obtain ⟨hocc, hrest⟩ := h.2.choose_spec
    generalize h.2.choose = a at hocc hrest
    rw [h.1]
    cases l with
    | nil => exact lookup_graft_outside _ (by simp)
    | cons b l =>
      by_cases hba : b = a
      · subst hba
        exact lookup_graft_append [b] l _
      · rw [lookup_graft_outside _ (by simp [Ne.symm hba]), lookup_branch_cons, hrest b hba,
          lookup_nil]
  · split
    · next hempty =>
      cases v <;> cases l <;> simp [hempty]
    · rfl

theorem delete_snd (k : List α) : (delete t k).2 = (lookup t k).isSome := by
  induction t generalizing k with
  | nil => rfl
  | leaf p v => by_cases hk : k = p <;> simp [delete, hk]
  | ext p c ih =>
    by_cases hp : p <+: k
    · have := ih (k.drop p.length)
      cases hr : (delete c (k.drop p.length)).2 <;> simp_all [delete]
    · simp [delete, hp]
  | branch cs v ih =>
    cases k with
    | nil => cases v <;> simp [delete]
    | cons a k =>
      have := ih a k
      cases hr : (delete (cs a) k).2 <;> simp_all [delete]

theorem delete_fst_of_absent {t : Tree α β} {k : List α} (h : (delete t k).2 = false) :
    (delete t k).1 = t := by
  cases t with
  | nil => rfl
  | leaf p v =>
    unfold delete at h ⊢
    split at h
    · simp at h
    · next hk => rw [if_neg hk]
  | ext p c =>
    unfold delete at h ⊢
    split at h
    · next hp =>
      rw [if_pos hp]
      cases hr : (delete c (k.drop p.length)).2 with
      | false => simp [hr]
      | true => simp [hr] at h
    · next hp => rw [if_neg hp]
  | branch cs v =>
    cases k with
    | nil => cases v <;> simp_all [delete]
    | cons a k =>
      cases hr : (delete (cs a) k).2 with
      | false => simp [delete, hr]
      | true => simp [delete, hr] at h

theorem lookup_delete (k l : List α) :
    lookup (delete t k).1 l = if l = k then none else lookup t l := by
  -- a key that is reported absent was absent, so leaving the tree alone is right
  have habsent : ∀ {s : Tree α β} {k l : List α}, (delete s k).2 = false →
      lookup s l = if l = k then none else lookup s l := by
    intro s k l h
    by_cases hlk : l = k
    · subst hlk
      rw [delete_snd] at h
      simpa using h
    · simp [hlk]
  induction t generalizing k l with
  | nil => simp [delete]
  | leaf p v =>
    by_cases hk : k = p
    · by_cases hl : l = p <;> simp [delete, hk, hl]
    by_cases hl : l = p
    · simp [delete, hk, hl, Ne.symm hk]
    · simp [delete, hk, hl]
  | ext p c ih =>
    by_cases hp : p <+: k
    · obtain ⟨k, rfl⟩ := hp
      cases hr : (delete c k).2 with
      | false =>
        have hwhole : (delete (.ext p c) (p ++ k)).2 = false := by simp [delete, hr]
        simpa [delete, hr] using habsent (l := l) hwhole
      | true =>
        simp only [delete, prefix_append, if_true, drop_left, hr]
        by_cases hpl : p <+: l
        · obtain ⟨l, rfl⟩ := hpl
          rw [lookup_graft_append, ih, lookup_ext_append]
          simp
        have hlk : l ≠ p ++ k := fun h => hpl (h ▸ prefix_append p k)
        rw [lookup_graft_outside _ hpl]
        simp [hlk, hpl]
    · have hwhole : (delete (.ext p c) k).2 = false := by simp [delete, hp]
      simpa [delete, hp] using habsent (l := l) hwhole
  | branch cs v ih =>
    cases k with
    | nil =>
      cases v with
      | none => cases l <;> simp [delete]
      | some w => cases l <;> simp [delete, lookup_collapse]
    | cons a k =>
      cases hr : (delete (cs a) k).2 with
      | false =>
        have hwhole : (delete (.branch cs v) (a :: k)).2 = false := by simp [delete, hr]
        simpa [delete, hr] using habsent (l := l) hwhole
      | true =>
        simp only [delete, hr, if_true, lookup_collapse]
        cases l with
        | nil => simp
        | cons b l =>
          by_cases hba : b = a
          · subst hba
            simp [ih]
          · simp [hba]

end ZbxChain.Radix

/-!
## Canonical radix trees

The compressed form: a branch has at least two occupants and an extension is a non-empty path to a
branch.
-/

namespace ZbxChain.Radix

open List

universe u v

variable {α : Type u} {β : Type v}

def Crowded (cs : α → Tree α β) (v : Option β) : Prop :=
  (v.isSome ∧ ∃ a, cs a ≠ .nil) ∨ ∃ a b, a ≠ b ∧ cs a ≠ .nil ∧ cs b ≠ .nil

inductive Canonical : Tree α β → Prop
  | nil : Canonical .nil
  | leaf (p : List α) (v : β) : Canonical (.leaf p v)
  | ext {p : List α} {cs : α → Tree α β} {v : Option β} (hp : p ≠ [])
      (hc : Canonical (.branch cs v)) : Canonical (.ext p (.branch cs v))
  | branch {cs : α → Tree α β} {v : Option β} (hcs : ∀ a, Canonical (cs a))
      (hocc : Crowded cs v) : Canonical (.branch cs v)

variable {p : List α} {v : Option β} {c : Tree α β} {cs : α → Tree α β}

theorem Canonical.child (h : Canonical (.branch cs v)) (a : α) : Canonical (cs a) := by
  cases h with
  | branch hcs _ => exact hcs a

theorem Canonical.crowded (h : Canonical (.branch cs v)) : Crowded cs v := by
  cases h with
  | branch _ hocc => exact hocc

theorem Canonical.ext_inv (h : Canonical (.ext p c)) : p ≠ [] ∧ Canonical c := by
  cases h with
  | ext hp hc => exact ⟨hp, hc⟩

/-! ## Compressing a branch -/

theorem collapse_of_empty (v : Option β) (h : ∀ a, cs a = .nil) :
    collapse cs v = v.elim .nil (.leaf []) := by
  have hnone : ¬ (v = none ∧ ∃ a, cs a ≠ .nil ∧ ∀ b, b ≠ a → cs b = .nil) := by
    rintro ⟨-, a, ha, -⟩
    exact ha (h a)
  rw [collapse, dif_neg hnone, if_pos h]
  cases v <;> rfl

theorem collapse_of_single {a : α} (ha : cs a ≠ .nil) (hrest : ∀ b, b ≠ a → cs b = .nil) :
    collapse cs none = graft [a] (cs a) := by
  have hex : (none : Option β) = none ∧ ∃ a, cs a ≠ .nil ∧ ∀ b, b ≠ a → cs b = .nil :=
    ⟨rfl, a, ha, hrest⟩
  have hchoose : hex.2.choose = a := by
    by_contra hne
    exact hex.2.choose_spec.1 (hrest _ hne)
  rw [collapse, dif_pos hex, hchoose]

theorem collapse_of_crowded (h : Crowded cs v) : collapse cs v = .branch cs v := by
  have hsingle : ¬ (v = none ∧ ∃ a, cs a ≠ .nil ∧ ∀ b, b ≠ a → cs b = .nil) := by
    rintro ⟨rfl, a, -, hrest⟩
    rcases h with ⟨hv, -⟩ | ⟨b, c, hbc, hb, hc⟩
    · simp at hv
    have hba : b = a := by
      by_contra hne
      exact hb (hrest b hne)
    have hca : c = a := by
      by_contra hne
      exact hc (hrest c hne)
    exact hbc (hba.trans hca.symm)
  have hempty : ¬ ∀ a, cs a = .nil := by
    intro hall
    rcases h with ⟨-, a, ha⟩ | ⟨a, -, -, ha, -⟩
    · exact ha (hall a)
    · exact ha (hall a)
  rw [collapse, dif_neg hsingle, if_neg hempty]

/-! ## The operations keep the form -/

theorem Canonical.graft {t : Tree α β} (hp : p ≠ []) (h : Canonical t) : Canonical (graft p t) := by
  cases h with
  | nil => exact .nil
  | leaf q v => exact .leaf _ v
  | ext hq hc => exact .ext (by simp [hp]) hc
  | branch hcs hocc => exact .ext hp (.branch hcs hocc)

theorem Canonical.wrap {fan : Fan α β} (h : Canonical (.branch fan.1 fan.2)) :
    Canonical (wrap p fan) := by
  cases p with
  | nil => exact h
  | cons a p => exact .ext (by simp) h

theorem Canonical.hang (h : Canonical (.branch cs v)) : Canonical (hang p (.branch cs v)) := by
  cases p with
  | nil => exact h
  | cons a p => exact .ext (by simp) h

theorem hang_ne_nil (h : c ≠ .nil) : hang p c ≠ .nil := by
  cases p with
  | nil => exact h
  | cons a p => exact ext_ne_nil _ _

theorem Canonical.collapse (hcs : ∀ a, Canonical (cs a)) : Canonical (collapse cs v) := by
  unfold Radix.collapse
  split
  · exact (hcs _).graft (by simp)
  · next hsingle =>
    split
    · cases v with
      | none => exact .nil
      | some w => exact .leaf _ w
    · next hempty =>
      refine .branch hcs ?_
      push Not at hempty
      obtain ⟨a, ha⟩ := hempty
      cases v with
      | some w => exact .inl ⟨rfl, a, ha⟩
      | none =>
        right
        by_contra hone
        push Not at hone
        exact hsingle ⟨rfl, a, ha, fun b hb => hone a b (Ne.symm hb) ha⟩

section

variable [DecidableEq α]

theorem insert_ne_nil (t : Tree α β) (k : List α) (v : β) : insert t k v ≠ .nil := by
  intro h
  have := lookup_insert t k k v
  rw [h] at this
  simp at this

theorem place_children_canonical {fan : Fan α β} (h : ∀ a, Canonical (fan.1 a)) (k : List α)
    (v : β) (a : α) : Canonical ((place fan k v).1 a) := by
  cases k with
  | nil => exact h a
  | cons b k =>
    by_cases hab : a = b
    · subst hab
      simpa [place] using Canonical.leaf k v
    · simpa [place, hab] using h a

variable {k : List α} {t : Tree α β}

theorem crowded_place_place {l : List α} (v w : β) (hkl : k ≠ l)
    (hne : ∀ a b k' l', k = a :: k' → l = b :: l' → a ≠ b) :
    Crowded (place (place (fun _ => .nil, none) l w) k v).1
      (place (place (fun _ => .nil, none) l w) k v).2 := by
  cases k with
  | nil =>
    cases l with
    | nil => exact absurd rfl hkl
    | cons b l => exact .inl ⟨rfl, b, by simp [place]⟩
  | cons a k =>
    cases l with
    | nil => exact .inl ⟨rfl, a, by simp [place]⟩
    | cons b l =>
      have hab := hne a b k l rfl rfl
      exact .inr ⟨a, b, hab, by simp [place], by simp [place, Ne.symm hab]⟩

theorem crowded_place {cs : α → Tree α β} {b : α} (v : β) (hb : cs b ≠ .nil)
    (hne : ∀ a k', k = a :: k' → a ≠ b) :
    Crowded (place (cs, none) k v).1 (place (cs, none) k v).2 := by
  cases k with
  | nil => exact .inl ⟨rfl, b, hb⟩
  | cons a k =>
    have hab := hne a k rfl
    exact .inr ⟨a, b, hab, by simp [place], by simpa [place, Ne.symm hab] using hb⟩

theorem Canonical.insert (h : Canonical t) (k : List α) (v : β) : Canonical (insert t k v) := by
  induction h generalizing k with
  | nil => exact .leaf k v
  | leaf p w =>
    by_cases hpk : p = k
    · simpa [Radix.insert, hpk] using Canonical.leaf k v
    obtain ⟨k', p', hk, hp, hne⟩ := commonPrefix_spec k p
    simp only [Radix.insert, if_neg hpk]
    generalize commonPrefix k p = c at hk hp
    subst hk hp
    simp only [drop_left]
    have hkp : k' ≠ p' := fun he => hpk (by rw [he])
    refine .wrap (.branch ?_ (crowded_place_place v w hkp hne))
    exact place_children_canonical (place_children_canonical (fun _ => .nil) _ _) _ _
  | @ext p cs w hp hc ih =>
    by_cases hpk : p <+: k
    · simp only [Radix.insert, if_pos hpk]
      have hchild := ih (k.drop p.length)
      cases hk : k.drop p.length with
      | nil | cons a k' => rw [hk] at hchild; exact .ext hp hchild
    obtain ⟨k', p', hk, hp', hne⟩ := commonPrefix_spec k p
    simp only [Radix.insert, if_neg hpk]
    generalize commonPrefix k p = d at hk hp'
    subst hk hp'
    simp only [drop_left]
    cases p' with
    | nil => exact absurd (by simp) hpk
    | cons a p' =>
      refine .wrap (.branch ?_ ?_)
      · apply place_children_canonical
        intro b
        by_cases hba : b = a
        · subst hba
          simpa using hc.hang
        · simpa [hba] using Canonical.nil
      apply crowded_place
      · rw [Function.update_self]
        exact hang_ne_nil (branch_ne_nil _ _)
      · intro b k'' hk''
        exact hne b a k'' p' hk'' rfl
  | @branch cs w hcs hocc ih =>
    cases k with
    | nil =>
      refine .branch hcs (.inl ⟨rfl, ?_⟩)
      obtain ⟨-, a, ha⟩ | ⟨a, _, -, ha, -⟩ := hocc
      · exact ⟨a, ha⟩
      · exact ⟨a, ha⟩
    | cons a k =>
      have hkeep : ∀ b, cs b ≠ .nil →
          Function.update cs a (Radix.insert (cs a) k v) b ≠ .nil := by
        intro b hb
        by_cases hba : b = a
        · subst hba
          simpa using insert_ne_nil (cs b) k v
        · simpa [hba] using hb
      refine .branch ?_ ?_
      · intro b
        by_cases hba : b = a
        · subst hba
          simpa using ih b k
        · simpa [hba] using hcs b
      obtain ⟨hw, b, hb⟩ | ⟨b, c, hbc, hb, hc⟩ := hocc
      · exact .inl ⟨hw, b, hkeep b hb⟩
      · exact .inr ⟨b, c, hbc, hkeep b hb, hkeep c hc⟩

theorem Canonical.delete (h : Canonical t) (k : List α) : Canonical (delete t k).1 := by
  induction h generalizing k with
  | nil => exact .nil
  | leaf p v =>
    by_cases hk : k = p
    · simpa [Radix.delete, hk] using Canonical.nil
    · simpa [Radix.delete, hk] using Canonical.leaf p v
  | @ext p cs v hp hc ih =>
    by_cases hpk : p <+: k
    · simp only [Radix.delete, if_pos hpk]
      split
      · exact (ih _).graft hp
      · exact .ext hp hc
    · simpa [Radix.delete, hpk] using Canonical.ext hp hc
  | @branch cs v hcs hocc ih =>
    cases k with
    | nil =>
      simp only [Radix.delete]
      split
      · exact .collapse hcs
      · exact .branch hcs hocc
    | cons a k =>
      simp only [Radix.delete]
      split
      · refine .collapse fun b => ?_
        by_cases hba : b = a
        · subst hba
          simpa using ih b k
        · simpa [hba] using hcs b
      · exact .branch hcs hocc

end

/-! ## A canonical tree is determined by its map -/

variable [DecidableEq α] {p : List α} {v w : Option β} {c t : Tree α β} {cs ds : α → Tree α β}

theorem Canonical.exists_key (h : Canonical t) (hne : t ≠ .nil) : ∃ k v, lookup t k = some v := by
  induction h with
  | nil => exact absurd rfl hne
  | leaf p v => exact ⟨p, v, by simp⟩
  | @ext p cs v hp hc ih =>
    obtain ⟨k, w, hk⟩ := ih (branch_ne_nil _ _)
    exact ⟨p ++ k, w, by rw [lookup_ext_append, hk]⟩
  | @branch cs v hcs hocc ih =>
    have hbelow : ∀ a, cs a ≠ .nil → ∃ k w, lookup (.branch cs v) k = some w := by
      intro a ha
      obtain ⟨k, w, hk⟩ := ih a ha
      exact ⟨a :: k, w, hk⟩
    obtain ⟨-, a, ha⟩ | ⟨a, _, -, ha, -⟩ := hocc
    · exact hbelow a ha
    · exact hbelow a ha

theorem Canonical.exists_key_not_starting (h : Canonical (.branch cs v)) (a : α) :
    ∃ k w, lookup (.branch cs v) k = some w ∧ ∀ k', k ≠ a :: k' := by
  obtain ⟨hv, -⟩ | ⟨b, c, hbc, hb, hc⟩ := h.crowded
  · obtain ⟨w, rfl⟩ := Option.isSome_iff_exists.mp hv
    exact ⟨[], w, rfl, by simp⟩
  -- one of the two occupied slots is not `a`
  obtain ⟨d, hd, hda⟩ : ∃ d, cs d ≠ .nil ∧ d ≠ a := by
    by_cases hba : b = a
    · exact ⟨c, hc, fun hca => hbc (hba.trans hca.symm)⟩
    · exact ⟨b, hb, hba⟩
  obtain ⟨k, w, hk⟩ := (h.child d).exists_key hd
  exact ⟨d :: k, w, hk, fun k' he => hda (cons.inj he).1⟩

theorem Canonical.not_single (h : Canonical (.branch cs v)) (k : List α) :
    ∃ l w, l ≠ k ∧ lookup (.branch cs v) l = some w := by
  cases k with
  | nil =>
    obtain ⟨-, a, ha⟩ | ⟨a, _, -, ha, -⟩ := h.crowded <;>
    · obtain ⟨k, w, hk⟩ := (h.child a).exists_key ha
      exact ⟨a :: k, w, by simp, hk⟩
  | cons a k =>
    obtain ⟨l, w, hl, hne⟩ := h.exists_key_not_starting a
    exact ⟨l, w, hne k, hl⟩

theorem prefix_of_lookup_ext {k : List α} {w : β} (h : lookup (.ext p c) k = some w) : p <+: k := by
  by_contra hp
  simp [hp] at h

theorem Canonical.path_eq_nil (h : Canonical (.branch cs v))
    (hp : ∀ k w, lookup (.branch cs v) k = some w → p <+: k) : p = [] := by
  cases p with
  | nil => rfl
  | cons a p =>
    obtain ⟨k, w, hk, hne⟩ := h.exists_key_not_starting a
    obtain ⟨m, hm⟩ := hp k w hk
    exact absurd hm.symm (hne (p ++ m))

theorem Canonical.ext_path_le {q : List α} (hd : Canonical (.branch ds w))
    (heq : lookup (.ext p (.branch cs v)) = lookup (.ext q (.branch ds w))) : p <+: q := by
  obtain ⟨k, x, hk⟩ := hd.exists_key (branch_ne_nil _ _)
  have hkey : lookup (.ext q (.branch ds w)) (q ++ k) = some x := by rw [lookup_ext_append, hk]
  have hpk : p <+: q ++ k := prefix_of_lookup_ext (by rw [heq, hkey])
  rcases prefix_or_prefix_of_prefix hpk (prefix_append q k) with hpq | hqp
  · exact hpq
  obtain ⟨r, rfl⟩ := hqp
  have hr : r = [] := by
    apply hd.path_eq_nil
    intro l y hl
    have hlong : q ++ r <+: q ++ l := by
      apply prefix_of_lookup_ext (c := .branch cs v) (w := y)
      rw [heq, lookup_ext_append, hl]
    exact (prefix_append_right_inj q).mp hlong
  simp [hr]

theorem Canonical.eq_nil (ht : Canonical t) (heq : lookup t = lookup .nil) : t = .nil := by
  by_contra hne
  obtain ⟨k, v, hk⟩ := ht.exists_key hne
  rw [heq] at hk
  simp at hk

theorem Canonical.eq_leaf {v : β} (ht : Canonical t) (heq : lookup t = lookup (.leaf p v)) :
    t = .leaf p v := by
  have honly : ∀ k w, lookup t k = some w → k = p := by
    intro k w hk
    rw [heq] at hk
    by_contra hne
    simp [hne] at hk
  cases ht with
  | nil =>
    have hp := congrFun heq p
    simp at hp
  | leaf q w =>
    have hvalue := congrFun heq q
    simpa using hvalue
  | @ext q ds w hq hd =>
    obtain ⟨k, x, hk⟩ := hd.exists_key (branch_ne_nil _ _)
    obtain ⟨l, y, hlk, hl⟩ := hd.not_single k
    have h₁ := honly (q ++ k) x (by rw [lookup_ext_append, hk])
    have h₂ := honly (q ++ l) y (by rw [lookup_ext_append, hl])
    exact absurd (append_cancel_left (h₂.trans h₁.symm)) hlk
  | @branch ds w hds hocc =>
    obtain ⟨l, y, hlp, hl⟩ := (Canonical.branch hds hocc).not_single p
    exact absurd (honly l y hl) hlp

theorem Canonical.path_eq_nil_of_lookup (hb : Canonical (.branch ds w))
    (heq : lookup (.ext p c) = lookup (.branch ds w)) : p = [] := by
  apply hb.path_eq_nil
  intro k x hk
  rw [← heq] at hk
  exact prefix_of_lookup_ext hk

theorem Canonical.eq_of_lookup_eq {s : Tree α β} (hs : Canonical s) (ht : Canonical t)
    (heq : lookup s = lookup t) : s = t := by
  induction hs generalizing t with
  | nil => exact (ht.eq_nil heq.symm).symm
  | leaf p v => exact (ht.eq_leaf heq.symm).symm
  | @ext p cs v hp hc ih =>
    have hext : Canonical (.ext p (.branch cs v)) := .ext hp hc
    cases ht with
    | nil => exact hext.eq_nil heq
    | leaf q w => exact hext.eq_leaf heq
    | @ext q ds w hq hd =>
      have hpq := hd.ext_path_le heq
      have hqp := hc.ext_path_le heq.symm
      have hpath : p = q := hpq.eq_of_length (Nat.le_antisymm hpq.length_le hqp.length_le)
      subst hpath
      rw [ih hd]
      funext k
      have := congrFun heq (p ++ k)
      rwa [lookup_ext_append, lookup_ext_append] at this
    | @branch ds w hds hocc =>
      exact absurd ((Canonical.branch hds hocc).path_eq_nil_of_lookup heq) hp
  | @branch cs v hcs hocc ih =>
    have hb : Canonical (.branch cs v) := .branch hcs hocc
    cases ht with
    | nil => exact hb.eq_nil heq
    | leaf q w => exact hb.eq_leaf heq
    | @ext q ds w hq hd => exact absurd (hb.path_eq_nil_of_lookup heq.symm) hq
    | @branch ds w hds hocc' =>
      have hvalue : v = w := congrFun heq []
      have hchildren : cs = ds := by
        funext a
        exact ih a (hds a) (funext fun k => congrFun heq (a :: k))
      rw [hvalue, hchildren]

end ZbxChain.Radix
