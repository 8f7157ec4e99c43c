import Mathlib.Init

/-!
# Computations that may fail

Rewriting rules for `Except` computations: a successful first step is replaced by
its value, a failed one ends the computation, and a successful run splits into
successful steps. `Alike` compares two computations.
-/

namespace ZbxChain

universe u v

variable {ε : Type u} {α β : Type v}

@[simp] theorem ok_bind (a : α) (f : α → Except ε β) : (Except.ok a >>= f) = f a := rfl

@[simp] theorem error_bind (e : ε) (f : α → Except ε β) :
    (Except.error e >>= f) = Except.error e := rfl

@[simp] theorem pure_eq_ok (a : α) : (pure a : Except ε α) = .ok a := rfl

@[simp] theorem throw_eq_error (e : ε) : (throw e : Except ε α) = .error e := rfl

variable {x : Except ε α} {f : α → Except ε β}

theorem bind_eq_ok {b : β} : (x >>= f) = .ok b ↔ ∃ a, x = .ok a ∧ f a = .ok b := by
  cases x <;> simp

theorem bind_eq_error {e : ε} :
    (x >>= f) = .error e ↔ x = .error e ∨ ∃ a, x = .ok a ∧ f a = .error e := by
  cases x <;> simp

theorem ite_error_eq_ok {p : Prop} [Decidable p] {e : ε} {x : Except ε α} {a : α} :
    (if p then .error e else x) = .ok a ↔ ¬p ∧ x = .ok a := by
  split <;> simp [*]

/-- What a computation gives is seen by running it. -/
instance decidableOk {x : Except ε α} {p : α → Prop} [DecidablePred p] :
    Decidable (∃ a, x = .ok a ∧ p a) :=
  match x with
  | .ok a => decidable_of_iff (p a) (by simp)
  | .error _ => isFalse nofun

instance decidableOkPair {x : Except ε (α × β)} {p : α → β → Prop} [∀ a b, Decidable (p a b)] :
    Decidable (∃ a b, x = .ok (a, b) ∧ p a b) :=
  decidable_of_iff (∃ r, x = .ok r ∧ p r.1 r.2) (by simp)

instance decidableOk₂ {ε' : Type u} {x : Except ε α} {y : Except ε' β} {p : α → β → Prop}
    [∀ a b, Decidable (p a b)] : Decidable (∃ a b, x = .ok a ∧ y = .ok b ∧ p a b) :=
  decidable_of_iff (∃ a, x = .ok a ∧ ∃ b, y = .ok b ∧ p a b) (by simp)

instance decidableError [DecidableEq ε] {x : Except ε α} {e : ε} : Decidable (x = .error e) :=
  match x with
  | .ok _ => isFalse nofun
  | .error e' => decidable_of_iff (e' = e) (by simp)

theorem exists_ok {p : α → Prop} (hx : x.isOk = true) (h : ∀ a, x = .ok a → p a) :
    ∃ a, x = .ok a ∧ p a := by
  cases x with
  | error e => cases hx
  | ok a => exact ⟨a, rfl, h a rfl⟩

theorem exists_ok_pair {x : Except ε (α × β)} {p : α → β → Prop} (hx : x.isOk = true)
    (h : ∀ a b, x = .ok (a, b) → p a b) : ∃ a b, x = .ok (a, b) ∧ p a b := by
  obtain ⟨⟨a, b⟩, hab, hp⟩ := exists_ok (p := fun r => p r.1 r.2) hx fun r => h r.1 r.2
  exact ⟨a, b, hab, hp⟩

theorem mapM_ok {g : α → β} (h : ∀ a, f a = .ok (g a)) (l : List α) : l.mapM f = .ok (l.map g) := by
  induction l with
  | nil => rfl
  | cons a l ih => simp [List.mapM_cons, h, ih]

theorem mapM_eq_error {l : List α} {e : ε} : l.mapM f = .error e ↔ ∃ front a back,
    l = front ++ a :: back ∧ (∀ c ∈ front, ∃ b, f c = .ok b) ∧ f a = .error e := by
  constructor
  · intro h
    induction l with
    | nil => cases h
    | cons a l ih =>
      rw [List.mapM_cons, bind_eq_error] at h
      obtain h | ⟨b, ha, h⟩ := h
      · exact ⟨[], a, l, rfl, nofun, h⟩
      obtain h | ⟨bs, -, h⟩ := bind_eq_error.mp h
      · obtain ⟨front, c, back, rfl, hfront, hc⟩ := ih h
        exact ⟨a :: front, c, back, rfl, List.forall_mem_cons.mpr ⟨⟨b, ha⟩, hfront⟩, hc⟩
      · cases h
  · rintro ⟨front, a, back, rfl, hfront, ha⟩
    induction front with
    | nil =>
      rw [List.nil_append, List.mapM_cons, ha]
      rfl
    | cons c front ih =>
      obtain ⟨⟨b, hc⟩, hfront⟩ := List.forall_mem_cons.mp hfront
      rw [List.cons_append, List.mapM_cons, hc, ok_bind, ih hfront]
      rfl

/-! ## Two computations -/

variable {γ δ : Type v}

inductive Alike (R : α → β → Prop) : Except ε α → Except ε β → Prop
  | ok {a : α} {b : β} (h : R a b) : Alike R (.ok a) (.ok b)
  | error (e : ε) : Alike R (.error e) (.error e)

variable {R : α → β → Prop}

theorem Alike.bind {S : γ → δ → Prop} {x : Except ε α} {y : Except ε β} {f : α → Except ε γ}
    {g : β → Except ε δ} (h : Alike R x y)
    (hf : ∀ a b, x = .ok a → R a b → Alike S (f a) (g b)) : Alike S (x >>= f) (y >>= g) := by
  cases h with
  | ok hab => exact hf _ _ rfl hab
  | error e => exact .error e

theorem Alike.map_eq {y : Except ε β} {f : α → γ} {g : β → γ} (h : Alike R x y)
    (hf : ∀ a b, R a b → f a = g b) : x.map f = y.map g := by
  cases h with
  | ok hab => exact congrArg Except.ok (hf _ _ hab)
  | error e => rfl

end ZbxChain

/-!
## State-passing computations that may fail

Rules for `EStateM`, whose failing runs keep the state.
-/

namespace ZbxChain

universe u

variable {ε σ α β : Type u}

def finalState : EStateM.Result ε σ α → σ
  | .ok _ s => s
  | .error _ s => s

@[simp] theorem finalState_ok (a : α) (s : σ) :
    finalState (.ok a s : EStateM.Result ε σ α) = s := rfl

@[simp] theorem finalState_error (e : ε) (s : σ) :
    finalState (.error e s : EStateM.Result ε σ α) = s := rfl

def okAny (p : α → σ → Bool) : EStateM.Result ε σ α → Bool
  | .ok a s => p a s
  | .error _ _ => false

theorem exists_of_okAny {p : α → σ → Bool} {r : EStateM.Result ε σ α} (h : okAny p r = true) :
    ∃ a s, r = .ok a s ∧ p a s = true := by
  cases r with
  | ok a s => exact ⟨a, s, rfl, h⟩
  | error e s => cases h

variable {x : EStateM ε σ α} {s s' : σ}

theorem estate_bind_ok {a : α} (h : x s = .ok a s') (f : α → EStateM ε σ β) :
    (x >>= f) s = f a s' := by
  simp [bind, EStateM.bind, h]

theorem estate_bind_error {e : ε} (h : x s = .error e s') (f : α → EStateM ε σ β) :
    (x >>= f) s = .error e s' := by
  simp [bind, EStateM.bind, h]

@[simp] theorem estate_pure (a : α) (s : σ) : (pure a : EStateM ε σ α) s = .ok a s := rfl

@[simp] theorem estate_throw (e : ε) (s : σ) : (throw e : EStateM ε σ α) s = .error e s := rfl

@[simp] theorem estate_get (s : σ) : (get : EStateM ε σ σ) s = .ok s s := rfl

def Extends (R : σ → σ → Prop) (x : EStateM ε σ α) : Prop :=
  ∀ s, R s (finalState (x s))

section

variable {R : σ → σ → Prop}

theorem Extends.pure (hrefl : ∀ s, R s s) (a : α) : Extends R (pure a : EStateM ε σ α) :=
  hrefl

theorem Extends.throw (hrefl : ∀ s, R s s) (e : ε) : Extends R (throw e : EStateM ε σ α) :=
  hrefl

theorem Extends.bind (htrans : ∀ a b c, R a b → R b c → R a c) {x : EStateM ε σ α}
    {f : α → EStateM ε σ β} (hx : Extends R x) (hf : ∀ a, Extends R (f a)) :
    Extends R (x >>= f) := by
  intro s
  have hs := hx s
  cases h : x s with
  | ok a s' =>
    rw [estate_bind_ok h]
    rw [h] at hs
    exact htrans _ _ _ hs (hf a s')
  | error e s' =>
    rw [estate_bind_error h]
    rw [h] at hs
    exact hs

end

/-! ## Pre- and postconditions -/

/-- A run from a state with `P` succeeds with `Q` or fails with `E`. -/
def Triple (P : σ → Prop) (x : EStateM ε σ α) (Q : α → σ → Prop) (E : ε → σ → Prop) : Prop :=
  ∀ s, P s → match x s with
    | .ok a s' => Q a s'
    | .error e s' => E e s'

section

variable {P P' : σ → Prop} {Q : α → σ → Prop} {E : ε → σ → Prop}

theorem Triple.pure {a : α} (h : ∀ s, P s → Q a s) : Triple P (pure a : EStateM ε σ α) Q E := h

theorem Triple.throw {e : ε} (h : ∀ s, P s → E e s) : Triple P (throw e : EStateM ε σ α) Q E := h

theorem Triple.set {Q : PUnit → σ → Prop} {t : σ} (h : ∀ s, P s → Q ⟨⟩ t) :
    Triple P (set t : EStateM ε σ PUnit) Q E := h

theorem Triple.modify {Q : PUnit → σ → Prop} {f : σ → σ} (h : ∀ s, P s → Q ⟨⟩ (f s)) :
    Triple P (modify f : EStateM ε σ PUnit) Q E := h

variable {x : EStateM ε σ α} {R : β → σ → Prop}

theorem Triple.pre (h : Triple P x Q E) (hP : ∀ s, P' s → P s) :
    Triple P' x Q E := fun s hs => h s (hP s hs)

theorem Triple.bind {f : α → EStateM ε σ β} (hx : Triple P x Q E)
    (hf : ∀ a, Triple (Q a) (f a) R E) : Triple P (x >>= f) R E := by
  intro s hs
  have hxs := hx s hs
  cases h : x s with
  | ok a s' =>
    rw [estate_bind_ok h]
    rw [h] at hxs
    exact hf a s' hxs
  | error e s' =>
    rw [estate_bind_error h]
    rw [h] at hxs
    exact hxs

theorem Triple.get_bind {f : σ → EStateM ε σ β} (h : ∀ t, P t → Triple (· = t) (f t) R E) :
    Triple P (get >>= f) R E := by
  intro s hs
  rw [estate_bind_ok (estate_get s)]
  exact h s hs s rfl

end

/-! ## Two computations -/

variable {τ : Type u}

inductive SameResult (R : σ → τ → Prop) : EStateM.Result ε σ α → EStateM.Result ε τ α → Prop
  | ok (a : α) {s : σ} {t : τ} (h : R s t) : SameResult R (.ok a s) (.ok a t)
  | error (e : ε) {s : σ} {t : τ} (h : R s t) : SameResult R (.error e s) (.error e t)

def Simulates (R : σ → τ → Prop) (x : EStateM ε σ α) (y : EStateM ε τ α) : Prop :=
  ∀ s t, R s t → SameResult R (x s) (y t)

variable {R : σ → τ → Prop}

theorem simulates_pure (a : α) : Simulates R (pure a : EStateM ε σ α) (pure a : EStateM ε τ α) :=
  fun _ _ h => .ok a h

theorem simulates_throw (e : ε) : Simulates R (throw e : EStateM ε σ α) (throw e : EStateM ε τ α) :=
  fun _ _ h => .error e h

theorem simulates_modify {f : σ → σ} {g : τ → τ} (h : ∀ s t, R s t → R (f s) (g t)) :
    Simulates R (modify f : EStateM ε σ PUnit) (modify g : EStateM ε τ PUnit) :=
  fun s t hR => .ok _ (h s t hR)

theorem Simulates.bind {x : EStateM ε σ α} {y : EStateM ε τ α} {f : α → EStateM ε σ β}
    {g : α → EStateM ε τ β} (hx : Simulates R x y) (hf : ∀ a, Simulates R (f a) (g a)) :
    Simulates R (x >>= f) (y >>= g) := by
  intro s t hR
  have hxs := hx s t hR
  cases hs : x s with
  | ok a s' =>
    cases ht : y t with
    | ok b t' =>
      rw [hs, ht] at hxs
      cases hxs with
      | ok _ hR' =>
        rw [estate_bind_ok hs, estate_bind_ok ht]
        exact hf a s' t' hR'
    | error e t' =>
      rw [hs, ht] at hxs
      cases hxs
  | error e s' =>
    cases ht : y t with
    | ok b t' =>
      rw [hs, ht] at hxs
      cases hxs
    | error e' t' =>
      rw [hs, ht] at hxs
      cases hxs with
      | error _ hR' =>
        rw [estate_bind_error hs, estate_bind_error ht]
        exact .error e hR'

theorem simulates_get_bind {f : σ → EStateM ε σ β} {g : τ → EStateM ε τ β}
    (h : ∀ s t, R s t → Simulates R (f s) (g t)) : Simulates R (get >>= f) (get >>= g) := by
  intro s t hR
  rw [estate_bind_ok (estate_get s), estate_bind_ok (estate_get t)]
  exact h s t hR s t hR

end ZbxChain
