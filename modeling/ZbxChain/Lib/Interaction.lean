import Mathlib.Init

/-!
# Computations that talk to an environment

An `Interaction` returns a value or makes a request and goes on with the reply. A handler answers
requests from a state.
-/

namespace ZbxChain

open List

/-- A computation over requests `q : Req` with replies in `Reply q`. -/
inductive Interaction (Req : Type) (Reply : Req → Type) (α : Type)
  | ret (a : α)
  | ask (q : Req) (next : Reply q → Interaction Req Reply α)

namespace Interaction

variable {Req : Type} {Reply : Req → Type} {α β γ : Type}

protected def bind : Interaction Req Reply α → (α → Interaction Req Reply β) →
    Interaction Req Reply β
  | .ret a, f => f a
  | .ask q next, f => .ask q fun r => (next r).bind f

instance : Monad (Interaction Req Reply) where
  pure := .ret
  bind := Interaction.bind

@[simp] theorem ask_bind (q : Req) (next : Reply q → Interaction Req Reply α)
    (f : α → Interaction Req Reply β) : ask q next >>= f = ask q fun r => next r >>= f := rfl

/-! ## For every handler -/

/-- Every request that can be made satisfies `A`, every value that can be returned `Q`. -/
def Ensures (A : Req → Prop) (Q : α → Prop) : Interaction Req Reply α → Prop
  | .ret a => Q a
  | .ask q next => A q ∧ ∀ r, (next r).Ensures A Q

variable {A B : Req → Prop} {Q Q' : α → Prop} {p : Interaction Req Reply α}
  {f : α → Interaction Req Reply β}

theorem Ensures.mono (h : p.Ensures A Q) (hA : ∀ q, A q → B q) (hQ : ∀ a, Q a → Q' a) :
    p.Ensures B Q' := by
  induction p with
  | ret a => exact hQ a h
  | ask q next ih => exact ⟨hA q h.1, fun r => ih r (h.2 r)⟩

theorem Ensures.bind {P : β → Prop} (hp : p.Ensures A Q) (hf : ∀ a, Q a → (f a).Ensures A P) :
    (p >>= f).Ensures A P := by
  induction p with
  | ret a => exact hf a hp
  | ask q next ih => exact ⟨hp.1, fun r => ih r (hp.2 r)⟩

theorem Ensures.bind_congr {g : α → Interaction Req Reply β} (hp : p.Ensures A Q)
    (h : ∀ a, Q a → f a = g a) : p >>= f = p >>= g := by
  induction p with
  | ret a => exact h a hp
  | ask q next ih =>
    rw [ask_bind, ask_bind]
    exact congrArg (ask q) (funext fun r => ih r (hp.2 r))

/-! ## Runs -/

variable {σ : Type} (handle : (q : Req) → σ → Reply q × σ)

def run : Interaction Req Reply α → σ → α × σ
  | .ret a, s => (a, s)
  | .ask q next, s => run (next (handle q s).1) (handle q s).2

/-- A run that is cut off after a number of requests, if it has not returned by then. -/
def runFor : Nat → Interaction Req Reply α → σ → Option α × σ
  | _, .ret a, s => (some a, s)
  | 0, .ask _ _, s => (none, s)
  | n + 1, .ask q next, s => runFor n (next (handle q s).1) (handle q s).2

def requests : Interaction Req Reply α → σ → List Req
  | .ret _, _ => []
  | .ask q next, s => q :: requests (next (handle q s).1) (handle q s).2

def serve (s : σ) (qs : List Req) : σ := qs.foldl (fun s q => (handle q s).2) s

theorem run_bind (p : Interaction Req Reply α) (f : α → Interaction Req Reply β) (s : σ) :
    run handle (p >>= f) s = run handle (f (run handle p s).1) (run handle p s).2 := by
  induction p generalizing s with
  | ret a => rfl
  | ask q next ih => exact ih _ _

theorem run_snd (p : Interaction Req Reply α) (s : σ) :
    (run handle p s).2 = serve handle s (requests handle p s) := by
  induction p generalizing s with
  | ret a => rfl
  | ask q next ih => exact ih _ _

theorem serve_append (s : σ) (qs qs' : List Req) :
    serve handle s (qs ++ qs') = serve handle (serve handle s qs) qs' := foldl_append

theorem requests_bind (p : Interaction Req Reply α) (f : α → Interaction Req Reply β) (s : σ) :
    requests handle (p >>= f) s =
      requests handle p s ++ requests handle (f (run handle p s).1) (run handle p s).2 := by
  induction p generalizing s with
  | ret a => rfl
  | ask q next ih => exact congrArg (q :: ·) (ih _ _)

/-- A run makes the requests `pre` and then `q`. -/
def Makes (p : Interaction Req Reply α) (s : σ) (pre : List Req) (q : Req) : Prop :=
  ∃ post, requests handle p s = pre ++ q :: post

variable {handle} {p : Interaction Req Reply α} {pre : List Req} {q : Req} {s : σ} {P : σ → Prop}

theorem makes_bind {f : α → Interaction Req Reply β} (h : Makes handle (p >>= f) s pre q) :
    Makes handle p s pre q ∨ ∃ pre', pre = requests handle p s ++ pre' ∧
      Makes handle (f (run handle p s).1) (run handle p s).2 pre' q := by
  obtain ⟨post, hpost⟩ := h
  rw [requests_bind] at hpost
  rcases append_eq_append_iff.mp hpost with ⟨pre', hpre, hrest⟩ | ⟨post', hreq, hrest⟩
  · exact .inr ⟨pre', hpre, post, hrest⟩
  cases post' with
  | nil => exact .inr ⟨[], by simpa using hreq.symm, post, hrest.symm⟩
  | cons q' post' =>
    obtain ⟨rfl, -⟩ := cons_eq_cons.mp hrest
    exact .inl ⟨post', hreq⟩

theorem Makes.bind (h : Makes handle p s pre q) (f : α → Interaction Req Reply β) :
    Makes handle (p >>= f) s pre q := by
  obtain ⟨post, hpost⟩ := h
  exact ⟨post ++ _, by rw [requests_bind, hpost, append_assoc]; rfl⟩

theorem not_makes_ret {a : α} : ¬ Makes handle (ret a : Interaction Req Reply α) s pre q := by
  rintro ⟨post, hpost⟩
  cases pre <;> cases hpost

theorem Makes.mem (h : Makes handle p s pre q) : q ∈ requests handle p s := by
  obtain ⟨post, hpost⟩ := h
  rw [hpost]
  exact mem_append_right _ mem_cons_self

theorem serve_invariant {qs : List Req} (hstep : ∀ q ∈ qs, ∀ s, P s → P (handle q s).2) (hs : P s) :
    P (serve handle s qs) := by
  induction qs generalizing s with
  | nil => exact hs
  | cons q qs ih =>
    exact ih (fun q' hq' => hstep q' (mem_cons_of_mem _ hq'))
      (hstep q mem_cons_self s hs)

theorem run_invariant (hstep : ∀ q ∈ requests handle p s, ∀ s, P s → P (handle q s).2) (hs : P s) :
    P (run handle p s).2 := by
  rw [run_snd]
  exact serve_invariant hstep hs

theorem run_of_runFor {n : Nat} {a : α} (h : (runFor handle n p s).1 = some a) :
    run handle p s = (a, (runFor handle n p s).2) := by
  induction p generalizing n s with
  | ret b => cases n <;> cases h <;> rfl
  | ask q next ih =>
    cases n with
    | zero => cases h
    | succ n => exact ih _ h

theorem runFor_invariant (n : Nat) (hstep : ∀ q s, P s → P (handle q s).2) (hs : P s) :
    P (runFor handle n p s).2 := by
  induction p generalizing s n with
  | ret a =>
    cases n with
    | zero => exact hs
    | succ n => exact hs
  | ask q next ih =>
    cases n with
    | zero => exact hs
    | succ n => exact ih _ n (hstep q s hs)

theorem Ensures.requests (h : p.Ensures A Q) (s : σ) : ∀ q ∈ requests handle p s, A q := by
  induction p generalizing s with
  | ret a => simp [Interaction.requests]
  | ask q next ih =>
    intro q' hq'
    rcases mem_cons.mp hq' with rfl | hmem
    · exact h.1
    · exact ih _ (h.2 _) _ q' hmem

theorem Ensures.run (h : p.Ensures A Q) (s : σ) : Q (run handle p s).1 := by
  induction p generalizing s with
  | ret a => exact h
  | ask q next ih => exact ih _ (h.2 _) _

theorem run_eq_of_readOnly (h : ∀ q ∈ requests handle p s, ∀ s, (handle q s).2 = s) :
    (run handle p s).2 = s :=
  run_invariant (P := fun t => t = s) (fun q hq t ht => (h q hq t).trans ht) rfl

theorem run_simulates {τ : Type} {handle' : (q : Req) → τ → Reply q × τ} {R : σ → τ → Prop} {t : τ}
    (hstep : ∀ q ∈ requests handle p s, ∀ s t, R s t →
      (handle q s).1 = (handle' q t).1 ∧ R (handle q s).2 (handle' q t).2) (hR : R s t) :
    (run handle p s).1 = (run handle' p t).1 ∧ requests handle p s = requests handle' p t ∧
      R (run handle p s).2 (run handle' p t).2 := by
  induction p generalizing s t with
  | ret a => exact ⟨rfl, rfl, hR⟩
  | ask q next ih =>
    obtain ⟨hreply, hnext⟩ := hstep q mem_cons_self s t hR
    obtain ⟨hval, hreq, hfinal⟩ := ih (handle q s).1
      (fun q' hq' => hstep q' (mem_cons_of_mem _ hq')) hnext
    simp only [run, requests]
    rw [← hreply]
    exact ⟨hval, congrArg (q :: ·) hreq, hfinal⟩

end Interaction

end ZbxChain

/-!
## Dialogues

What a computation has found out from its environment is its transcript, the list of the requests
with their replies.
-/

namespace ZbxChain.Interaction

variable {Req : Type} {Reply : Req → Type} {α β ε : Type}

abbrev Transcript (Reply : Req → Type) := List ((q : Req) × Reply q)

section

variable {σ : Type} (handle : (q : Req) → σ → Reply q × σ)

def transcript : Interaction Req Reply α → σ → Transcript Reply
  | .ret _, _ => []
  | .ask q next, s => ⟨q, (handle q s).1⟩ :: transcript (next (handle q s).1) (handle q s).2

end

def Traced : (α → Transcript Reply → Prop) → Interaction Req Reply α → Prop
  | P, .ret a => P a []
  | P, .ask q next => ∀ r, Traced (fun a tr => P a (⟨q, r⟩ :: tr)) (next r)

variable {P P' : α → Transcript Reply → Prop} {p : Interaction Req Reply α} {σ : Type}
  {handle : (q : Req) → σ → Reply q × σ} {a : α}

theorem Traced.mono (h : Traced P p) (himp : ∀ a tr, P a tr → P' a tr) : Traced P' p := by
  induction p generalizing P P' with
  | ret a => exact himp a [] h
  | ask q next ih => exact fun r => ih r (h r) fun a tr => himp a (⟨q, r⟩ :: tr)

theorem Traced.bind {f : α → Interaction Req Reply β} {Q : β → Transcript Reply → Prop}
    (hp : Traced P p) (hf : ∀ a tr, P a tr → Traced (fun b tr' => Q b (tr ++ tr')) (f a)) :
    Traced Q (p >>= f) := by
  induction p generalizing P Q with
  | ret a => exact hf a [] hp
  | ask q next ih => exact fun r => ih r (hp r) fun a tr h => hf a (⟨q, r⟩ :: tr) h

theorem Traced.run (h : Traced P p) (s : σ) : P (run handle p s).1 (transcript handle p s) := by
  induction p generalizing P s with
  | ret a => exact h
  | ask q next ih => exact ih _ (h _) _

/-! ## Dialogues that may fail -/

abbrev Dialogue (ε : Type) (Reply : Req → Type) := ExceptT ε (Interaction Req Reply)

def request (q : Req) : Dialogue ε Reply (Reply q) :=
  ExceptT.lift (.ask q .ret)

/-- If the value `a` is returned, `Q a` holds of the transcript. -/
def Delivers (Q : α → Transcript Reply → Prop) (x : Dialogue ε Reply α) : Prop :=
  Traced (fun res tr => ∀ a, res = .ok a → Q a tr) x.run

variable {Q Q' : α → Transcript Reply → Prop} {x : Dialogue ε Reply α}

theorem delivers_pure (h : Q a []) : Delivers Q (pure a : Dialogue ε Reply α) := by
  intro b hb
  cases hb
  exact h

theorem delivers_throw (e : ε) : Delivers Q (throw e : Dialogue ε Reply α) := by
  intro b hb
  cases hb

theorem delivers_request {q : Req} {Q : Reply q → Transcript Reply → Prop}
    (h : ∀ r, Q r [⟨q, r⟩]) : Delivers Q (request q : Dialogue ε Reply (Reply q)) := by
  intro r b hb
  cases hb
  exact h r

theorem Delivers.mono (h : Delivers Q x) (himp : ∀ a tr, Q a tr → Q' a tr) : Delivers Q' x :=
  Traced.mono h fun _ tr hres a ha => himp a tr (hres a ha)

theorem Delivers.bind {f : α → Dialogue ε Reply β} {R : β → Transcript Reply → Prop}
    (hx : Delivers Q x) (hf : ∀ a tr, Q a tr → Delivers (fun b tr' => R b (tr ++ tr')) (f a)) :
    Delivers R (x >>= f) := by
  refine Traced.bind hx fun res tr hres => ?_
  cases res with
  | error e =>
    intro b hb
    cases hb
  | ok a => exact hf a tr (hres a rfl)

theorem Delivers.run (h : Delivers Q x) {s : σ}
    (hrun : (Interaction.run handle x.run s).1 = .ok a) : Q a (transcript handle x.run s) :=
  Traced.run h s a hrun

end ZbxChain.Interaction
