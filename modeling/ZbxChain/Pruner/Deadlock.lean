import ZbxChain.Pruner.CommitRace

/-!
# Waiting for each other

The commit takes its inner guards while it holds the outer one, and the lock makes a new reader
wait for a writer that waits. If the pruner asks for the lock between two guards of a commit, the
commit waits for the pruner and the pruner for the commit.
-/

namespace ZbxChain

open List

namespace Pruner

variable {cfg : RocksDbPrunerConfig} {head : UInt64} {c : System}

namespace System

def commitWaits (c : System) : Bool :=
  match c.commit with
  | [] => false
  | action :: _ => action.blocked c.shared

def prunerWaits (c : System) : Bool :=
  c.pruner.atAcquire && c.shared.lock.writerWaiting &&
    (c.shared.lock.writer || decide (0 < c.shared.lock.readers))

end System

def Deadlock (c : System) : Prop := c.commitWaits = true ∧ c.prunerWaits = true

instance (c : System) : Decidable (Deadlock c) := inferInstanceAs (Decidable (_ ∧ _))

theorem exists_lockRead_of_commitWaits (h : c.commitWaits = true) :
    ∃ rest, c.commit = .lockRead :: rest ∧ CommitAction.lockRead.blocked c.shared = true := by
  obtain ⟨s, p, commit⟩ := c
  cases commit with
  | nil => cases h
  | cons action rest =>
    cases action with
    | lockRead => exact ⟨rest, rfl, h⟩
    | _ => cases h

theorem exists_acquire_of_prunerWaits (h : c.prunerWaits = true) :
    (∃ roots live, c.pruner = .acquire roots live) ∧ c.shared.lock.writerWaiting = true ∧
      ¬ (c.shared.lock.writer = false ∧ c.shared.lock.readers = 0) := by
  obtain ⟨h, hheld⟩ := Bool.and_eq_true_iff.mp h
  obtain ⟨hacquire, hwaiting⟩ := Bool.and_eq_true_iff.mp h
  refine ⟨?_, hwaiting, ?_⟩
  · cases hp : c.pruner with
    | acquire roots live => exact ⟨roots, live, rfl⟩
    | _ =>
      rw [hp] at hacquire
      cases hacquire
  rintro ⟨hwriter, hreaders⟩
  rw [hwriter, hreaders] at hheld
  cases hheld

theorem deadlock_stays (h : Deadlock c) (t : Thread) : c.step cfg head t = c := by
  obtain ⟨s, p, commit⟩ := c
  cases t with
  | commit =>
    obtain ⟨rest, hcommit, hblocked⟩ := exists_lockRead_of_commitWaits h.1
    have hstep := commitStep_of_blocked rest hblocked
    subst hcommit
    exact congrArg (fun next => (⟨next.1, p, next.2⟩ : System)) hstep
  | pruner =>
    obtain ⟨⟨roots, live, hacquire⟩, hwaiting, hheld⟩ := exists_acquire_of_prunerWaits h.2
    subst hacquire
    obtain ⟨-, hfree⟩ | ⟨hstep, -⟩ := prunerStep_acquire cfg head s roots live
    · exact absurd hfree hheld
    · rw [System.step_pruner hstep, ← hwaiting]

/-! ## On the way there -/

def Doomed (c : System) : Prop :=
  c.shared.lock.writerWaiting = true ∧ 0 < c.shared.lock.readers ∧ .lockRead ∈ c.commit

/-- When the pruner asks for the lock, the commit holds no guard or has taken its last one. -/
def AsksInTime (c : System) (t : Thread) : Prop :=
  t = .pruner → c.pruner.atAcquire = true → 0 < c.shared.lock.readers → .lockRead ∉ c.commit

theorem doomed_of_deadlock (hlock : LockInv c) (h : Deadlock c) : Doomed c := by
  obtain ⟨rest, hcommit, -⟩ := exists_lockRead_of_commitWaits h.1
  obtain ⟨⟨roots, live, hacquire⟩, hwaiting, hheld⟩ := exists_acquire_of_prunerWaits h.2
  have hwriter : c.shared.lock.writer = false := by
    rw [hlock.writer, hacquire]
    rfl
  refine ⟨hwaiting, Nat.pos_of_ne_zero fun hzero => hheld ⟨hwriter, hzero⟩, ?_⟩
  rw [hcommit]
  exact mem_cons_self

variable (cfg head) in
theorem doomed_commitStep (hlock : LockInv c) (h : Doomed c) :
    Deadlock c ∨ Doomed (c.step cfg head .commit) ∧
      (c.step cfg head .commit).commit.length < c.commit.length := by
  obtain ⟨s, p, commit⟩ := c
  obtain ⟨hwaiting, hreaders, hmem⟩ := h
  have hacquire : p.atAcquire = true := hlock.waiting hwaiting
  dsimp only at hwaiting hreaders hmem
  cases commit with
  | nil => cases hmem
  | cons action rest =>
    cases hblocked : action.blocked s with
    | true =>
      refine .inl ⟨hblocked, ?_⟩
      simp [System.prunerWaits, hacquire, hwaiting, hreaders]
    | false =>
      have hguarded : Guarded (action :: rest) := hlock.guarded
      have hrest : CommitAction.lockRead ∈ rest := by
        refine (mem_cons.mp hmem).resolve_left fun heq => ?_
        rw [← heq] at hblocked
        have hfree := (Bool.or_eq_false_iff.mp hblocked).2
        rw [hwaiting] at hfree
        cases hfree
      have hstep : System.step cfg head ⟨s, p, action :: rest⟩ .commit =
          ⟨action.perform s, p, rest⟩ :=
        congrArg (fun next => (⟨next.1, p, next.2⟩ : System)) (commitStep_of_not_blocked rest hblocked)
      rw [hstep]
      refine .inr ⟨⟨(lock_perform s action).2.trans hwaiting, ?_, hrest⟩, Nat.lt_succ_self _⟩
      rw [readers_perform hguarded hlock.readers]
      exact hguarded.tail.guards_pos hrest

theorem doomed_step (hlock : LockInv c) (h : Doomed c) (t : Thread) :
    Doomed (c.step cfg head t) := by
  cases t with
  | commit =>
    obtain hdead | ⟨hdoomed, -⟩ := doomed_commitStep cfg head hlock h
    · rw [deadlock_stays hdead]
      exact h
    · exact hdoomed
  | pruner =>
    obtain ⟨s, p, commit⟩ := c
    have hacquire := hlock.waiting h.1
    cases p with
    | acquire roots live =>
      obtain ⟨-, -, hzero⟩ | ⟨hstep, -⟩ := prunerStep_acquire cfg head s roots live
      · have hpos : 0 < s.lock.readers := h.2.1
        omega
      · rw [System.step_pruner hstep]
        exact ⟨rfl, h.2⟩
    | _ => cases hacquire

variable (cfg head) in
theorem deadlock_of_doomed (n : Nat) (hn : c.commit.length = n) (hlock : LockInv c)
    (h : Doomed c) : ∃ m, Deadlock ((replicate m .commit).foldl (System.step cfg head) c) := by
  induction n using Nat.strong_induction_on generalizing c with
  | h n ih =>
    obtain hdead | ⟨hdoomed, hless⟩ := doomed_commitStep cfg head hlock h
    · exact ⟨0, hdead⟩
    · obtain ⟨m, hm⟩ := ih _ (hn ▸ hless) rfl (hlock.step cfg head .commit) hdoomed
      exact ⟨m + 1, hm⟩

theorem doomed_step_iff (hlock : LockInv c) (h : ¬ Doomed c) (t : Thread) :
    ¬ Doomed (c.step cfg head t) ↔ AsksInTime c t := by
  cases t with
  | commit =>
    refine ⟨nofun, fun _ hdoomed => h ?_⟩
    obtain heq | ⟨action, rest, hcommit, hblocked, heq, -⟩ := hlock.commit_cases cfg head
    · rw [heq] at hdoomed
      exact hdoomed
    rw [heq] at hdoomed
    obtain ⟨hwaiting, hreaders, hmem⟩ := hdoomed
    have hwaiting' : c.shared.lock.writerWaiting = true :=
      (lock_perform c.shared action).2.symm.trans hwaiting
    have hguarded := hlock.guarded
    have hguards := hlock.readers
    rw [hcommit] at hguarded hguards
    refine ⟨hwaiting', ?_, hcommit ▸ mem_cons_of_mem _ hmem⟩
    obtain ⟨hpos, -⟩ | ⟨rest', hfirst, -, -⟩ := hguarded
    · rw [hguards]
      exact hpos
    obtain rfl := (cons.inj hfirst).1
    have hfree := (Bool.or_eq_false_iff.mp hblocked).2
    rw [hwaiting'] at hfree
    cases hfree
  | pruner =>
    obtain ⟨s, p, commit⟩ := c
    cases hacquire : p.atAcquire with
    | true =>
      cases p with
      | acquire roots live =>
        obtain ⟨hstep, -, hzero⟩ | ⟨hstep, -⟩ := prunerStep_acquire cfg head s roots live
        · rw [System.step_pruner hstep]
          refine ⟨fun _ _ _ hpos => ?_, fun _ hdoomed => by cases hdoomed.1⟩
          dsimp only at hpos
          omega
        rw [System.step_pruner hstep]
        exact ⟨fun hnot _ _ hpos hmem => hnot ⟨rfl, hpos, hmem⟩,
          fun hasks hdoomed => hasks rfl rfl hdoomed.2.1 hdoomed.2.2⟩
      | _ => cases hacquire
    | false =>
      refine ⟨fun _ _ hasks => ?_, fun _ hdoomed => ?_⟩
      · rw [hacquire] at hasks
        cases hasks
      have hsame : (prunerStep cfg head s p).1.lock.writerWaiting = s.lock.writerWaiting := by
        by_cases hrelease : ∃ acc, p = .release acc
        · obtain ⟨acc, rfl⟩ := hrelease
          rfl
        · rw [(prunerStep_lock cfg head s hacquire fun acc heq => hrelease ⟨acc, heq⟩).1]
      have hasks := hlock.waiting (hsame.symm.trans hdoomed.1)
      rw [hacquire] at hasks
      cases hasks

/-! ## Whole runs -/

/-- However a run of the pruner and a commit interleave, and however far the commit goes on
afterwards, they do not come to wait for each other if and only if at each step at which the pruner
asks for the lock the commit holds no guard or has taken its last one. -/
theorem deadlock_free_iff (cfg : RocksDbPrunerConfig) (head : UInt64) (db : ZbxDb)
    (retained : List Retained) (pending : List (H256 × Bytes)) (block : Block)
    (exec : ExecutionResult) (threads : List Thread) :
    (∀ n, Always (System.step cfg head) (fun c => ¬ Deadlock c)
        (.start db retained (commitActions pending block exec)) (threads ++ replicate n .commit)) ↔
      Meets (System.step cfg head) AsksInTime
        (.start db retained (commitActions pending block exec)) threads := by
  have hstart := LockInv.start db retained pending block exec
  have hfresh : ¬ Doomed (.start db retained (commitActions pending block exec)) :=
    fun hdoomed => by cases hdoomed.1
  generalize System.start db retained (commitActions pending block exec) = c₀ at hstart hfresh ⊢
  have hinv : ∀ c t, LockInv c → LockInv (c.step cfg head t) := fun c t h => h.step cfg head t
  have hdoomed : ∀ ts : List Thread, Always (System.step cfg head) (fun c => ¬ Doomed c) c₀ ts ↔
      Meets (System.step cfg head) AsksInTime c₀ ts :=
    fun ts => always_iff_meets hinv (fun c t hlock h => doomed_step_iff hlock h t) hstart hfresh
  have hlocks : ∀ ts : List Thread, LockInv (ts.foldl (System.step cfg head) c₀) :=
    fun ts => foldl_of_meets (C := fun _ _ => True) (fun c t h _ => hinv c t h) hstart
      (fun _ _ _ _ => trivial)
  constructor
  · intro hfree
    rw [← hdoomed]
    intro before after heq hbefore
    -- once doomed, the run is doomed to its end, and the commit goes on into the deadlock
    have hend : LockInv (threads.foldl (System.step cfg head) c₀) ∧
        Doomed (threads.foldl (System.step cfg head) c₀) := by
      rw [heq, foldl_append]
      exact foldl_of_meets (C := fun _ _ => True) (I := fun c => LockInv c ∧ Doomed c)
        (fun c t h _ => ⟨hinv c t h.1, doomed_step h.1 h.2 t⟩) ⟨hlocks before, hbefore⟩
        (fun _ _ _ _ => trivial)
    obtain ⟨m, hm⟩ := deadlock_of_doomed cfg head _ rfl hend.1 hend.2
    refine hfree m (threads ++ replicate m .commit) [] (append_nil _).symm ?_
    rw [foldl_append]
    exact hm
  · intro hmeets n before after heq hdead
    have hcommits : Meets (System.step cfg head) AsksInTime c₀
        (threads ++ replicate n .commit) := by
      refine meets_append.mpr ⟨hmeets, fun b t a hsplit ht => ?_⟩
      have hmem : t ∈ replicate n Thread.commit := by
        rw [hsplit]
        exact mem_append_right _ mem_cons_self
      rw [eq_of_mem_replicate hmem] at ht
      cases ht
    exact (hdoomed _).mpr hcommits before after heq (doomed_of_deadlock (hlocks before) hdead)

/-- The pruner asks for the lock right after the commit has taken the outer guard. -/
theorem outer_guard_deadlock :
    Deadlock ((replicate 6 Thread.pruner ++ [Thread.commit, Thread.pruner]).foldl
      (System.step .default 0) beforeBoth) := by
  decide +kernel

end Pruner

end ZbxChain
