import ZbxChain.Node.Commit

/-!
# The pruner and a committing thread

`RocksDbPruner::run_once` of `zbx-pruner/src/rocksdb_pruner.rs` and the writing part of
`execute_and_commit_inner` (`node/src/block_producer.rs`) as two threads over one database, one
list of retained roots and one reader-writer lock. A step of a thread is what it does up to and
with its next access to something shared. Errors of RocksDB, the clock and the counters of failures
are left out.
-/

namespace ZbxChain.Pruner

/-! ## Retained roots -/

structure Retained where
  block : UInt64
  stateRoot : H256
  deriving DecidableEq

structure RocksDbPrunerConfig where
  retainBlocks : UInt64
  sweepBatch : Nat

def RocksDbPrunerConfig.default : RocksDbPrunerConfig := ⟨128, 1000⟩

/-- The lowest height of the window; both operations saturate. -/
def cutoff (head retainBlocks : UInt64) : Nat :=
  min (head.toNat + 1) (2 ^ 64 - 1) - retainBlocks.toNat

variable (cfg : RocksDbPrunerConfig) (head : UInt64)

def snapshotRetained (retained : List Retained) : List Retained :=
  retained.filter fun c => cutoff head cfg.retainBlocks ≤ c.block.toNat ∧ c.block ≤ head

/-! ## Walking -/

def accountStorageRoot (value : Bytes) : Option H256 :=
  if Rlp.isList value = false then none
  else
    match Rlp.itemCount value with
    | .error _ => none
    | .ok count =>
      if count ≠ 4 ∧ count ≠ 5 then none
      else
        match Rlp.valAt value 2 with
        | .error _ => none
        | .ok bytes => if bytes.length ≠ 32 then none else some (H256.ofBytes bytes)

/-- A call of `walk`: the hash and whether storage roots are to be walked too. -/
abbrev WalkCall := H256 × Bool

def storageCall (walkStorageRoot : Bool) (value : Bytes) : List WalkCall :=
  if walkStorageRoot then
    match accountStorageRoot value with
    | some root => [(root, false)]
    | none => []
  else []

mutual

/-- The calls that `walk` and `walk_inline` make for a node, in order. -/
def nodeCalls (walkStorageRoot : Bool) : TrieNode → List WalkCall
  | .empty => []
  | .leaf _ value => storageCall walkStorageRoot value
  | .extension _ child => descend walkStorageRoot child
  | .branch children value =>
    ((List.finRange 16).flatMap fun i => descend walkStorageRoot (children i)) ++
      value.elim [] (storageCall walkStorageRoot)

def descend (walkStorageRoot : Bool) : NodeRef → List WalkCall
  | .hash h => [(h, walkStorageRoot)]
  | .inline node => nodeCalls walkStorageRoot node
  | .empty => []

end

inductive MarkError
  | decodeFailed (msg : String)
  | missingNode (h : H256)
  deriving DecidableEq

def loadNode (db : ZbxDb) (h : H256) : Except (Fault MarkError) TrieNode :=
  match db.getTrieNode h with
  | none => .error (.err (.missingNode h))
  | some bytes =>
    match TrieNode.decode bytes with
    | .ok node => .ok node
    | .error (.err e) => .error (.err (.decodeFailed e.display))
    | .error .panic => .error .panic

/-! ## Sweeping -/

structure RunStats where
  nodesSwept : Nat
  nodesKept : Nat
  bytesFreed : Nat
  aborted : Bool
  deriving DecidableEq

def RunStats.abort : RunStats := ⟨0, 0, 0, true⟩

structure Sweep where
  toDelete : List H256
  pendingBytes : Nat
  nodesKept : Nat
  nodesSwept : Nat
  bytesFreed : Nat

namespace Sweep

def start : Sweep := ⟨[], 0, 0, 0, 0⟩

def keep (s : Sweep) : Sweep := { s with nodesKept := s.nodesKept + 1 }

def push (s : Sweep) (h : H256) (len : Nat) : Sweep :=
  { s with toDelete := s.toDelete ++ [h], pendingBytes := s.pendingBytes + len }

def drain (s : Sweep) : Sweep :=
  { s with
    toDelete := []
    pendingBytes := 0
    nodesSwept := s.nodesSwept + s.toDelete.length
    bytesFreed := s.bytesFreed + s.pendingBytes }

def stats (s : Sweep) : RunStats := ⟨s.nodesSwept, s.nodesKept, s.bytesFreed, false⟩

end Sweep

/-! ## What is shared -/

structure CommitLock where
  readers : Nat
  writer : Bool
  writerWaiting : Bool

def CommitLock.free : CommitLock := ⟨0, false, false⟩

structure Shared where
  db : ZbxDb
  retained : List Retained
  lock : CommitLock

/-! ## The pruner -/

/-- Where `run_once` is. From the mark on, the checkpoints that were marked are kept along. -/
inductive PrunerState
  | start
  | window
  | snapshot
  | marking (roots : List Retained) (todo : List WalkCall) (live : List H256)
  | acquire (roots : List Retained) (live : List H256)
  | scan (roots : List Retained) (live : List H256)
  | sweeping (roots : List Retained) (live : List H256) (entries : List (H256 × Nat)) (acc : Sweep)
  | release (acc : Sweep)
  | finished (stats : RunStats)
  | panicked

def walkStep (db : ZbxDb) (roots : List Retained) (call : WalkCall) (todo : List WalkCall)
    (live : List H256) : PrunerState :=
  if call.1 = 0 ∨ live.contains call.1 then .marking roots todo live
  else
    match loadNode db call.1 with
    | .ok node => .marking roots (nodeCalls call.2 node ++ todo) (call.1 :: live)
    | .error (.err _) => .finished .abort
    | .error .panic => .panicked

variable (s : Shared)

def sweepStep (roots : List Retained) (live : List H256)
    (entry : H256 × Nat) (entries : List (H256 × Nat)) (acc : Sweep) : Shared × PrunerState :=
  if live.contains entry.1 then (s, .sweeping roots live entries acc.keep)
  else
    let acc := acc.push entry.1 entry.2
    if cfg.sweepBatch ≤ acc.toDelete.length then
      ({ s with db := s.db.deleteTrieNodes acc.toDelete }, .sweeping roots live entries acc.drain)
    else (s, .sweeping roots live entries acc)

def prunerStep :
    PrunerState → Shared × PrunerState
  | .start => (s, if s.retained = [] then .finished .abort else .window)
  | .window => (s, if snapshotRetained cfg head s.retained = [] then .finished .abort else .snapshot)
  | .snapshot =>
    let roots := snapshotRetained cfg head s.retained
    (s, .marking roots (roots.map fun c => (c.stateRoot, true)) [])
  | .marking roots (call :: todo) live => (s, walkStep s.db roots call todo live)
  | .marking roots [] live => (s, .acquire roots live)
  | .acquire roots live =>
    if s.lock.writer = false ∧ s.lock.readers = 0 then
      ({ s with lock := ⟨0, true, false⟩ }, .scan roots live)
    else ({ s with lock := { s.lock with writerWaiting := true } }, .acquire roots live)
  | .scan roots live => (s, .sweeping roots live s.db.forEachTrieNode .start)
  | .sweeping roots live (entry :: entries) acc => sweepStep cfg s roots live entry entries acc
  | .sweeping _ _ [] acc =>
    if acc.toDelete = [] then (s, .release acc)
    else ({ s with db := s.db.deleteTrieNodes acc.toDelete }, .release acc.drain)
  | .release acc => ({ s with lock := { s.lock with writer := false } }, .finished acc.stats)
  | .finished stats => (s, .finished stats)
  | .panicked => (s, .panicked)

section

variable (cfg : RocksDbPrunerConfig) (head : UInt64) (s : Shared) (roots : List Retained)
  (live : List H256)

theorem prunerStep_marking_cons (call : WalkCall) (todo : List WalkCall) :
    prunerStep cfg head s (.marking roots (call :: todo) live) =
      (s, walkStep s.db roots call todo live) := rfl

theorem prunerStep_sweeping_cons (entry : H256 × Nat) (entries : List (H256 × Nat)) (acc : Sweep) :
    prunerStep cfg head s (.sweeping roots live (entry :: entries) acc) =
      sweepStep cfg s roots live entry entries acc := rfl

theorem prunerStep_sweeping_nil (acc : Sweep) :
    prunerStep cfg head s (.sweeping roots live [] acc) =
      if acc.toDelete = [] then (s, .release acc)
      else ({ s with db := s.db.deleteTrieNodes acc.toDelete }, .release acc.drain) := rfl

end

/-! ## The committing thread -/

/-- What a commit does. `lockRead` is `acquire_commit_read_guard`, `unlockRead` the end of a
guard. -/
inductive CommitAction
  | lockRead
  | unlockRead
  | putAccount (addr : Address) (state : AccountState)
  | writeTrieNodes (batch : List (H256 × Bytes))
  | putBlock (block : Block)
  | flushStaking (delta : StakingDelta)
  | pushRetained (checkpoint : Retained)

/-- `ZbxDbTrieAdapter::commit`, which takes a guard of its own when there is something to write. -/
def flushActions (pending : List (H256 × Bytes)) : List CommitAction :=
  if pending = [] then [] else [.lockRead, .writeTrieNodes pending, .unlockRead]

/-- `put_block`, with a guard of its own. -/
def putBlockActions (block : Block) : List CommitAction := [.lockRead, .putBlock block, .unlockRead]

/-- The part of `execute_and_commit_inner` under the outer guard. -/
def commitActions (pending : List (H256 × Bytes)) (block : Block) (exec : ExecutionResult) :
    List CommitAction :=
  [.lockRead] ++ exec.stateDiff.accounts.entries.map (fun e => .putAccount e.1 e.2) ++
    flushActions pending ++ putBlockActions block ++
    [.flushStaking exec.stakingDelta,
      .pushRetained ⟨block.header.number, block.header.stateRoot⟩, .unlockRead]

def CommitAction.perform : CommitAction → Shared
  | .lockRead => { s with lock := { s.lock with readers := s.lock.readers + 1 } }
  | .unlockRead => { s with lock := { s.lock with readers := s.lock.readers - 1 } }
  | .putAccount addr state => { s with db := s.db.putAccount addr state }
  | .writeTrieNodes batch => { s with db := s.db.writeTrieNodes batch }
  | .putBlock block => { s with db := s.db.putBlock block }
  | .flushStaking delta => { s with db := BlockProducer.flushStaking s.db delta }
  | .pushRetained checkpoint => { s with retained := s.retained ++ [checkpoint] }

def CommitAction.blocked : CommitAction → Bool
  | .lockRead => s.lock.writer || s.lock.writerWaiting
  | _ => false

def commitStep : List CommitAction → Shared × List CommitAction
  | [] => (s, [])
  | action :: rest =>
    if action.blocked s then (s, action :: rest) else (action.perform s, rest)

theorem commitStep_of_blocked {s : Shared} {action : CommitAction} (rest : List CommitAction)
    (h : action.blocked s = true) : commitStep s (action :: rest) = (s, action :: rest) :=
  if_pos h

theorem commitStep_of_not_blocked {s : Shared} {action : CommitAction} (rest : List CommitAction)
    (h : action.blocked s = false) : commitStep s (action :: rest) = (action.perform s, rest) :=
  if_neg (Bool.not_eq_true _ ▸ h)

/-! ## Both -/

structure System where
  shared : Shared
  pruner : PrunerState
  commit : List CommitAction

inductive Thread
  | pruner
  | commit
  deriving DecidableEq

def System.step (c : System) : Thread → System
  | .pruner =>
    let next := prunerStep cfg head c.shared c.pruner
    ⟨next.1, next.2, c.commit⟩
  | .commit =>
    let next := commitStep c.shared c.commit
    ⟨next.1, c.pruner, next.2⟩

def System.start (db : ZbxDb) (retained : List Retained) (actions : List CommitAction) : System :=
  ⟨⟨db, retained, .free⟩, .start, actions⟩

end ZbxChain.Pruner

/-!
## The guards of a commit

`execute_and_commit_inner` holds one guard of the commit lock from its first write to its end, and
`ZbxDbTrieAdapter::commit` and `put_block` take guards of their own meanwhile.
-/

namespace ZbxChain.Pruner

open List

variable {cfg : RocksDbPrunerConfig} {head : UInt64}

/-! ## A commit alone -/

theorem lock_perform (s : Shared) (action : CommitAction) :
    (action.perform s).lock.writer = s.lock.writer ∧
      (action.perform s).lock.writerWaiting = s.lock.writerWaiting := by
  cases action <;> exact ⟨rfl, rfl⟩

/-! ## Guards -/

def guards : List CommitAction → Nat
  | [] => 0
  | .lockRead :: rest => guards rest - 1
  | .unlockRead :: rest => guards rest + 1
  | _ :: rest => guards rest

def UnderGuard : List CommitAction → Prop
  | [] => True
  | action :: rest => 0 < guards (action :: rest) ∧ UnderGuard rest

def Guarded (actions : List CommitAction) : Prop :=
  UnderGuard actions ∨ ∃ rest, actions = .lockRead :: rest ∧ guards rest = 1 ∧ UnderGuard rest

variable (entries : List ((_ : Address) × AccountState))

theorem guards_putAccounts (rest : List CommitAction) :
    guards (entries.map (fun e => CommitAction.putAccount e.1 e.2) ++ rest) = guards rest := by
  induction entries with
  | nil => rfl
  | cons e entries ih => exact ih

variable {action : CommitAction} {rest : List CommitAction} {s : Shared} {c : System}

theorem underGuard_putAccounts (hpos : 0 < guards rest) (hrest : UnderGuard rest) :
    UnderGuard (entries.map (fun e => CommitAction.putAccount e.1 e.2) ++ rest) := by
  induction entries with
  | nil => exact hrest
  | cons e entries ih =>
    refine ⟨?_, ih⟩
    show 0 < guards (entries.map (fun e => CommitAction.putAccount e.1 e.2) ++ rest)
    rw [guards_putAccounts]
    exact hpos

variable (pending : List (H256 × Bytes))

theorem guarded_flushActions (hone : guards rest = 1) (hrest : UnderGuard rest) :
    guards (flushActions pending ++ rest) = 1 ∧ UnderGuard (flushActions pending ++ rest) := by
  unfold flushActions
  split
  · exact ⟨hone, hrest⟩
  · simp [guards, UnderGuard, hone, hrest]

theorem guarded_commitActions (block : Block) (exec : ExecutionResult) :
    ∃ rest, commitActions pending block exec = .lockRead :: rest ∧
      guards rest = 1 ∧ UnderGuard rest := by
  have hend : ∀ r, guards (putBlockActions block ++ [.flushStaking exec.stakingDelta,
      .pushRetained r, .unlockRead]) = 1 ∧ UnderGuard (putBlockActions block ++
        [.flushStaking exec.stakingDelta, .pushRetained r, .unlockRead]) := by
    intro r
    simp [putBlockActions, guards, UnderGuard]
  obtain ⟨hone, hunder⟩ := hend ⟨block.header.number, block.header.stateRoot⟩
  obtain ⟨hone', hunder'⟩ := guarded_flushActions pending hone hunder
  refine ⟨exec.stateDiff.accounts.entries.map (fun e => .putAccount e.1 e.2) ++
    (flushActions pending ++ (putBlockActions block ++ [.flushStaking exec.stakingDelta,
      .pushRetained ⟨block.header.number, block.header.stateRoot⟩, .unlockRead])), ?_,
    (guards_putAccounts _ _).trans hone',
    underGuard_putAccounts _ (hone'.symm ▸ Nat.one_pos) hunder'⟩
  unfold commitActions
  simp only [append_assoc, cons_append, nil_append]

theorem readers_perform (hguarded : Guarded (action :: rest))
    (hreaders : s.lock.readers = guards (action :: rest)) :
    (action.perform s).lock.readers = guards rest := by
  cases action with
  | lockRead =>
    show s.lock.readers + 1 = guards rest
    have hless : s.lock.readers = guards rest - 1 := hreaders
    obtain ⟨hpos, -⟩ | ⟨rest', heq, hone, -⟩ := hguarded
    · omega
    · obtain rfl := (cons.inj heq).2
      omega
  | unlockRead =>
    show s.lock.readers - 1 = guards rest
    have hmore : s.lock.readers = guards rest + 1 := hreaders
    omega
  | _ => exact hreaders

theorem Guarded.tail (h : Guarded (action :: rest)) : UnderGuard rest := by
  obtain ⟨-, hrest⟩ | ⟨rest', heq, -, hrest⟩ := h
  · exact hrest
  · rw [(cons.inj heq).2]
    exact hrest

theorem UnderGuard.guards_pos {actions : List CommitAction} (h : UnderGuard actions)
    (hmem : action ∈ actions) : 0 < guards actions := by
  cases actions with
  | nil => cases hmem
  | cons a actions => exact h.1

/-! ## Both threads -/

def PrunerState.holdsLock : PrunerState → Bool
  | .scan _ _ => true
  | .sweeping _ _ _ _ => true
  | .release _ => true
  | _ => false

def PrunerState.atAcquire : PrunerState → Bool
  | .acquire _ _ => true
  | _ => false

/-- A writer and readers exclude each other, and the lock says where the threads are. -/
structure LockInv (c : System) : Prop where
  readers : c.shared.lock.readers = guards c.commit
  guarded : Guarded c.commit
  writer : c.shared.lock.writer = c.pruner.holdsLock
  exclusive : c.shared.lock.writer = true → c.shared.lock.readers = 0
  waiting : c.shared.lock.writerWaiting = true → c.pruner.atAcquire = true

theorem LockInv.start (db : ZbxDb) (retained : List Retained) (pending : List (H256 × Bytes))
    (block : Block) (exec : ExecutionResult) :
    LockInv (System.start db retained (commitActions pending block exec)) := by
  obtain ⟨rest, heq, hone, hunder⟩ := guarded_commitActions pending block exec
  refine ⟨?_, .inr ⟨rest, heq, hone, hunder⟩, rfl, nofun,
    nofun⟩
  rw [heq]
  show 0 = guards rest - 1
  omega

variable (cfg head) in
theorem LockInv.commit_cases (h : LockInv c) : c.step cfg head .commit = c ∨
      ∃ action rest, c.commit = action :: rest ∧ action.blocked c.shared = false ∧
        c.step cfg head .commit = ⟨action.perform c.shared, c.pruner, rest⟩ ∧
        c.pruner.holdsLock = false := by
  obtain ⟨s, p, commit⟩ := c
  cases commit with
  | nil => exact .inl rfl
  | cons action rest =>
    cases hblocked : action.blocked s with
    | true =>
      have hstep := commitStep_of_blocked rest hblocked
      exact .inl (congrArg (fun next => (⟨next.1, p, next.2⟩ : System)) hstep)
    | false =>
      have hstep := commitStep_of_not_blocked rest hblocked
      refine .inr ⟨action, rest, rfl, hblocked,
        congrArg (fun next => (⟨next.1, p, next.2⟩ : System)) hstep, ?_⟩
      · rw [← h.writer]
        show s.lock.writer = false
        obtain ⟨hpos, -⟩ | ⟨rest', heq, -, -⟩ := h.guarded
        · -- a guard is held, and readers exclude a writer
          have hreaders : s.lock.readers = guards (action :: rest) := h.readers
          by_contra hwriter
          have hzero := h.exclusive (Bool.eq_true_of_not_eq_false hwriter)
          dsimp only at hzero
          omega
        · obtain rfl := (cons.inj heq).1
          exact (Bool.or_eq_false_iff.mp hblocked).1

section

variable (cfg : RocksDbPrunerConfig) (head : UInt64) (s : Shared) {p : PrunerState}

theorem prunerStep_of_not_held (hholds : p.holdsLock = false) (hacquire : p.atAcquire = false) :
    (prunerStep cfg head s p).1 = s ∧ (prunerStep cfg head s p).2.holdsLock = false := by
  cases p with
  | start =>
    refine ⟨rfl, ?_⟩
    show (if s.retained = [] then _ else _ : PrunerState).holdsLock = false
    split <;> rfl
  | window =>
    refine ⟨rfl, ?_⟩
    show (if snapshotRetained cfg head s.retained = [] then _ else _ : PrunerState).holdsLock = _
    split <;> rfl
  | snapshot => exact ⟨rfl, rfl⟩
  | marking roots todo live =>
    cases todo with
    | nil => exact ⟨rfl, rfl⟩
    | cons call todo =>
      rw [prunerStep_marking_cons]
      refine ⟨rfl, ?_⟩
      unfold walkStep
      split
      · rfl
      cases loadNode s.db call.1 with
      | ok node => rfl
      | error e => cases e <;> rfl
  | acquire roots live => cases hacquire
  | scan roots live | sweeping roots live entries acc | release acc => cases hholds
  | finished stats | panicked => exact ⟨rfl, rfl⟩

theorem prunerStep_of_held (hholds : p.holdsLock = true) (hrelease : ∀ acc, p ≠ .release acc) :
    (∃ hashes, (prunerStep cfg head s p).1 = { s with db := s.db.deleteTrieNodes hashes }) ∧
      (prunerStep cfg head s p).2.holdsLock = true := by
  cases p with
  | scan roots live => exact ⟨⟨[], rfl⟩, rfl⟩
  | sweeping roots live entries acc =>
    cases entries with
    | nil =>
      rw [prunerStep_sweeping_nil]
      split
      · exact ⟨⟨[], rfl⟩, rfl⟩
      · exact ⟨⟨_, rfl⟩, rfl⟩
    | cons entry entries =>
      rw [prunerStep_sweeping_cons]
      unfold sweepStep
      dsimp only
      split
      · exact ⟨⟨[], rfl⟩, rfl⟩
      split
      · exact ⟨⟨_, rfl⟩, rfl⟩
      · exact ⟨⟨[], rfl⟩, rfl⟩
  | release acc => exact absurd rfl (hrelease acc)
  | _ => cases hholds

theorem prunerStep_lock (hacquire : p.atAcquire = false) (hrelease : ∀ acc, p ≠ .release acc) :
    (prunerStep cfg head s p).1.lock = s.lock ∧
      (prunerStep cfg head s p).2.holdsLock = p.holdsLock := by
  cases hholds : p.holdsLock with
  | true =>
    obtain ⟨⟨hashes, hshared⟩, hheld⟩ := prunerStep_of_held cfg head s hholds hrelease
    rw [hshared]
    exact ⟨rfl, hheld⟩
  | false =>
    obtain ⟨hshared, hheld⟩ := prunerStep_of_not_held cfg head s hholds hacquire
    exact ⟨congrArg Shared.lock hshared, hheld⟩

theorem prunerStep_acquire (roots : List Retained) (live : List H256) :
    prunerStep cfg head s (.acquire roots live) =
        ({ s with lock := ⟨0, true, false⟩ }, .scan roots live) ∧
      s.lock.writer = false ∧ s.lock.readers = 0 ∨
    prunerStep cfg head s (.acquire roots live) =
        ({ s with lock := { s.lock with writerWaiting := true } }, .acquire roots live) ∧
      ¬ (s.lock.writer = false ∧ s.lock.readers = 0) := by
  by_cases hfree : s.lock.writer = false ∧ s.lock.readers = 0
  · exact .inl ⟨if_pos hfree, hfree⟩
  · exact .inr ⟨if_neg hfree, hfree⟩

end

theorem System.step_pruner {p : PrunerState} (h : prunerStep cfg head c.shared c.pruner = (s, p)) :
    c.step cfg head .pruner = ⟨s, p, c.commit⟩ :=
  congrArg (fun next => (⟨next.1, next.2, c.commit⟩ : System)) h

variable (cfg head) in
theorem LockInv.step (h : LockInv c) (t : Thread) : LockInv (c.step cfg head t) := by
  cases t with
  | commit =>
    obtain heq | ⟨action, rest, hcommit, hblocked, heq, hholds⟩ := h.commit_cases cfg head
    · rw [heq]
      exact h
    rw [heq]
    obtain ⟨hwriter, hwaiting⟩ := lock_perform c.shared action
    have hguarded := h.guarded
    rw [hcommit] at hguarded
    refine ⟨readers_perform hguarded (hcommit ▸ h.readers), .inl hguarded.tail,
      hwriter.trans h.writer, fun hw => ?_, fun hq => h.waiting (hwaiting.symm.trans hq)⟩
    have hheld := h.writer.symm.trans (hwriter.symm.trans hw)
    rw [hholds] at hheld
    cases hheld
  | pruner =>
    obtain ⟨s, p, commit⟩ := c
    cases hacquire : p.atAcquire with
    | true =>
      cases p with
      | acquire roots live =>
        obtain ⟨hstep, -, hzero⟩ | ⟨hstep, -⟩ := prunerStep_acquire cfg head s roots live
        · rw [System.step_pruner hstep]
          exact ⟨hzero.symm.trans h.readers, h.guarded, rfl, fun _ => rfl, nofun⟩
        · rw [System.step_pruner hstep]
          exact ⟨h.readers, h.guarded, h.writer, h.exclusive, fun _ => rfl⟩
      | _ => cases hacquire
    | false =>
      have hnot : s.lock.writerWaiting ≠ true := fun hwaiting => by
        have hasks := h.waiting hwaiting
        rw [hacquire] at hasks
        cases hasks
      by_cases hrelease : ∃ acc, p = .release acc
      · obtain ⟨acc, rfl⟩ := hrelease
        exact ⟨h.readers, h.guarded, rfl, nofun, fun hq => absurd hq hnot⟩
      obtain ⟨hlock, hheld⟩ := prunerStep_lock cfg head s hacquire
        fun acc heq => hrelease ⟨acc, heq⟩
      rw [System.step_pruner (Prod.mk.eta).symm]
      refine ⟨(congrArg CommitLock.readers hlock).trans h.readers, h.guarded,
        (congrArg CommitLock.writer hlock).trans (h.writer.trans hheld.symm), ?_, ?_⟩
      · dsimp only
        rw [hlock]
        exact h.exclusive
      · exact fun hwaiting =>
          absurd ((congrArg CommitLock.writerWaiting hlock).symm.trans hwaiting) hnot

end ZbxChain.Pruner
