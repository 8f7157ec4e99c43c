import ZbxChain.Lib.Runs
import ZbxChain.Pruner.Sweep

/-!
# A run of the pruner and a commit

The pruner marks before it asks for the lock. A commit that comes between its snapshot of the
retained roots and its lock writes nodes that the mark has not seen, and the sweep takes them
away again, although the commit has pushed its root meanwhile.
-/

namespace ZbxChain

open List

theorem ZbxDb.writeTrieNodes_cons (db : ZbxDb) {e : H256 × Bytes} (hne : e.2 ≠ [])
    (batch : List (H256 × Bytes)) : db.writeTrieNodes (e :: batch) =
      ({ db with trieNodes := db.trieNodes.insert e.1 e.2 } : ZbxDb).writeTrieNodes batch := by
  unfold writeTrieNodes
  rw [foldl_cons, writeTrieNode, if_neg hne]

variable {batch : List (H256 × Bytes)}

theorem ZbxDb.getTrieNode_writeTrieNodes {db : ZbxDb} (hne : ∀ e ∈ batch, e.2 ≠ []) {h : H256}
    {bytes : Bytes} (hget : (db.writeTrieNodes batch).getTrieNode h = some bytes) :
    db.getTrieNode h = some bytes ∨ (h, bytes) ∈ batch := by
  induction batch generalizing db with
  | nil => exact .inl hget
  | cons e batch ih =>
    rw [writeTrieNodes_cons db (hne e mem_cons_self)] at hget
    rcases ih (fun e he => hne e (mem_cons_of_mem _ he)) hget with hfirst | hrest
    · rcases FiniteMap.lookup_insert_cases hfirst with ⟨rfl, rfl⟩ | hold
      · exact .inr mem_cons_self
      · exact .inl hold
    · exact .inr (mem_cons_of_mem _ hrest)

theorem ZbxDb.isSome_getTrieNode_writeTrieNodes (db : ZbxDb) (hne : ∀ e ∈ batch, e.2 ≠ [])
    (h : H256) : ((db.writeTrieNodes batch).getTrieNode h).isSome ↔
      (db.getTrieNode h).isSome ∨ h ∈ batch.map Prod.fst := by
  induction batch generalizing db with
  | nil =>
    rw [map_nil]
    exact ⟨.inl, fun hor => hor.resolve_right not_mem_nil⟩
  | cons e batch ih =>
    rw [writeTrieNodes_cons db (hne e mem_cons_self),
      ih _ (fun e he => hne e (mem_cons_of_mem _ he)), map_cons, mem_cons]
    unfold getTrieNode
    rw [AList.lookup_isSome, AList.lookup_isSome, AList.mem_insert, or_assoc, or_left_comm]

namespace Pruner

variable {cfg : RocksDbPrunerConfig} {head : UInt64}

/-! ## What is needed -/

def nodesOf (db : ZbxDb) (pending : List (H256 × Bytes)) (h : H256) : Option Bytes :=
  (db.getTrieNode h).or (pending.lookup h)

def ContentAddressed (db : ZbxDb) (pending : List (H256 × Bytes)) : Prop :=
  (∀ h bytes, db.getTrieNode h = some bytes → h = keccak256 bytes) ∧
    ∀ e ∈ pending, e.1 = keccak256 e.2 ∧ e.2 ≠ []

def nodeBytes (db : ZbxDb) (pending : List (H256 × Bytes)) : Set Bytes :=
  {bytes | (∃ h, db.getTrieNode h = some bytes) ∨ ∃ h, (h, bytes) ∈ pending}

variable {h : H256} {U : H256 → Option Bytes} {pending : List (H256 × Bytes)}
  {roots roots' : List Retained}

theorem nodesOf_pending {db : ZbxDb} (hcontent : ContentAddressed db pending)
    (hcollision : CollisionFree (nodeBytes db pending)) {e : H256 × Bytes} (he : e ∈ pending) :
    nodesOf db pending e.1 = some e.2 := by
  have hbytes : e.2 ∈ nodeBytes db pending := .inr ⟨e.1, he⟩
  unfold nodesOf
  cases hget : db.getTrieNode e.1 with
  | some bytes =>
    have heq : keccak256 bytes = keccak256 e.2 :=
      (hcontent.1 e.1 bytes hget).symm.trans (hcontent.2 e he).1
    rw [Option.some_or, hcollision (.inl ⟨e.1, hget⟩) hbytes heq]
  | none =>
    rw [Option.none_or]
    cases hlookup : pending.lookup e.1 with
    | none =>
      have hnot := lookup_eq_none_iff.mp hlookup e he
      exact absurd rfl (bne_iff_ne.mp hnot)
    | some bytes =>
      obtain ⟨before, after, heq, -⟩ := lookup_eq_some_iff.mp hlookup
      have hmem : (e.1, bytes) ∈ pending := by
        rw [heq]
        exact mem_append_right _ mem_cons_self
      have heq : keccak256 bytes = keccak256 e.2 :=
        (hcontent.2 _ hmem).1.symm.trans (hcontent.2 e he).1
      rw [hcollision (.inr ⟨e.1, hmem⟩) hbytes heq]

theorem reachable_append (hreach : Reachable U (roots ++ roots') h) :
    Reachable U roots h ∨ Reachable U roots' h := by
  obtain ⟨account, hreach⟩ := hreach
  have hkinds : Reaches U roots account h ∨ Reaches U roots' account h := by
    induction hreach with
    | root hc hne =>
      exact (mem_append.mp hc).imp (fun hc => .root hc hne) fun hc => .root hc hne
    | link _ hnode hlink hne ih =>
      exact ih.imp (fun hreach => .link hreach hnode hlink hne)
        fun hreach => .link hreach hnode hlink hne
    | storage _ hnode hvalue hne ih =>
      exact ih.imp (fun hreach => .storage hreach hnode hvalue hne)
        fun hreach => .storage hreach hnode hvalue hne
  exact hkinds.imp (fun hreach => ⟨account, hreach⟩) fun hreach => ⟨account, hreach⟩

theorem Reachable.mono (hreach : Reachable U roots h) (hsub : roots ⊆ roots') :
    Reachable U roots' h :=
  hreach.imp fun _ hreach => hreach.mono hsub

/-! ## What holds along every interleaving -/

def actionNodes : CommitAction → List (H256 × Bytes)
  | .writeTrieNodes batch => batch
  | _ => []

def pendingNodes (actions : List CommitAction) : List (H256 × Bytes) :=
  actions.flatMap actionNodes

section

variable (U : H256 → Option Bytes) (cfg : RocksDbPrunerConfig) (head : UInt64)
  (retained : List Retained) (new : Retained)

/-- The pruner has marked what it had to retain, and nothing else than that and the new root. -/
def RootsOk (roots : List Retained) : Prop :=
  snapshotRetained cfg head retained ⊆ roots ∧ roots ⊆ retained ++ [new]

def Marked : PrunerState → Prop
  | .marking roots todo live => RootsOk cfg head retained new roots ∧ MarkInv U roots todo live
  | .acquire roots live => RootsOk cfg head retained new roots ∧ MarkInv U roots [] live
  | .scan roots live => RootsOk cfg head retained new roots ∧ MarkInv U roots [] live
  | .panicked => False
  | _ => True

structure RaceInv (c : System) : Prop where
  lock : LockInv c
  store : ∀ h bytes, c.shared.db.getTrieNode h = some bytes → U h = some bytes
  pending : ∀ e ∈ pendingNodes c.commit, U e.1 = some e.2 ∧ e.2 ≠ []
  pushed : ∀ r, .pushRetained r ∈ c.commit → r = new
  retainedOk : retained ⊆ c.shared.retained ∧ c.shared.retained ⊆ retained ++ [new]
  marked : Marked U cfg head retained new c.pruner

def Kept (c : System) (h : H256) : Prop :=
  (∃ bytes, Remains (c.shared, c.pruner) h bytes) ∨ h ∈ (pendingNodes c.commit).map Prod.fst

/-- All that is reachable from the new root or from one that had to be retained is kept. -/
def AllKept (c : System) : Prop :=
  ∀ h, (U h).isSome → Reachable U (snapshotRetained cfg head retained ++ [new]) h → Kept c h

/-- When the pruner scans, each node of the new trie that is stored is one that has been marked or
one that the commit will write. -/
def ScanSafe (c : System) (t : Thread) : Prop :=
  ∀ roots live, t = .pruner → c.pruner = .scan roots live →
    ∀ h, (c.shared.db.getTrieNode h).isSome → Reachable U [new] h →
      Reachable U roots h ∨ h ∈ (pendingNodes c.commit).map Prod.fst

end

theorem getTrieNode_perform (s : Shared) (action : CommitAction) (h : H256) :
    (action.perform s).db.getTrieNode h =
      (s.db.writeTrieNodes (actionNodes action)).getTrieNode h := by
  cases action with
  | flushStaking delta =>
    show (BlockProducer.flushStaking s.db delta).getTrieNode h = _
    unfold BlockProducer.flushStaking
    split
    · rfl
    · rfl
  | _ => rfl

variable (cfg head) in
theorem prunerStep_shared (s : Shared)
    (p : PrunerState) : (prunerStep cfg head s p).1.retained = s.retained ∧
      ∃ hashes, (prunerStep cfg head s p).1.db = s.db.deleteTrieNodes hashes := by
  cases hacquire : p.atAcquire with
  | true =>
    cases p with
    | acquire roots live =>
      obtain ⟨hstep, -⟩ | ⟨hstep, -⟩ := prunerStep_acquire cfg head s roots live <;> rw [hstep]
      all_goals exact ⟨rfl, [], rfl⟩
    | _ => cases hacquire
  | false =>
    by_cases hrelease : ∃ acc, p = .release acc
    · obtain ⟨acc, rfl⟩ := hrelease
      exact ⟨rfl, [], rfl⟩
    cases hholds : p.holdsLock with
    | true =>
      obtain ⟨⟨hashes, hshared⟩, -⟩ := prunerStep_of_held cfg head s hholds
        fun acc heq => hrelease ⟨acc, heq⟩
      rw [hshared]
      exact ⟨rfl, hashes, rfl⟩
    | false =>
      rw [(prunerStep_of_not_held cfg head s hholds hacquire).1]
      exact ⟨rfl, [], rfl⟩

section

variable {U : H256 → Option Bytes} {retained : List Retained} {new : Retained} {p : PrunerState}
  {c : System}

theorem marked_prunerStep {s : Shared}
    (hstore : ∀ h bytes, s.db.getTrieNode h = some bytes → U h = some bytes)
    (hwritten : Written U (retained ++ [new])) (hretained : retained ⊆ s.retained)
    (hsub : s.retained ⊆ retained ++ [new]) (h : Marked U cfg head retained new p) :
    Marked U cfg head retained new (prunerStep cfg head s p).2 := by
  cases p with
  | start =>
    show Marked U cfg head retained new (if s.retained = [] then _ else _)
    split <;> trivial
  | window =>
    show Marked U cfg head retained new (if snapshotRetained cfg head s.retained = [] then _ else _)
    split <;> trivial
  | snapshot =>
    have hroots : snapshotRetained cfg head s.retained ⊆ s.retained := filter_subset_self _
    exact ⟨⟨filter_subset _ hretained, Subset.trans hroots hsub⟩, .start _ _⟩
  | marking roots todo live =>
    obtain ⟨hroots, hmark⟩ := h
    cases todo with
    | nil => exact ⟨hroots, hmark⟩
    | cons call todo =>
      rw [prunerStep_marking_cons]
      obtain ⟨hstep, hinv⟩ | ⟨node, hstep, hinv, -, -⟩ | ⟨hstep, -, -⟩ :=
        walkStep_cases hstore (hwritten.mono hroots.2) hmark <;> rw [hstep]
      · exact ⟨hroots, hinv⟩
      · exact ⟨hroots, hinv⟩
      · trivial
  | acquire roots live =>
    obtain ⟨hstep, -⟩ | ⟨hstep, -⟩ := prunerStep_acquire cfg head s roots live <;> rw [hstep]
    all_goals exact h
  | scan roots live => trivial
  | sweeping roots live entries acc =>
    cases entries with
    | nil =>
      rw [prunerStep_sweeping_nil]
      split <;> trivial
    | cons entry entries =>
      rw [prunerStep_sweeping_cons]
      unfold sweepStep
      dsimp only
      split
      · trivial
      · split <;> trivial
  | release acc => trivial
  | finished stats => trivial
  | panicked => exact h

theorem RaceInv.step (hwritten : Written U (retained ++ [new]))
    (h : RaceInv U cfg head retained new c) (t : Thread) :
    RaceInv U cfg head retained new (c.step cfg head t) := by
  have hlock := h.lock.step cfg head t
  cases t with
  | pruner =>
    obtain ⟨hsame, hashes, hdb⟩ := prunerStep_shared cfg head c.shared c.pruner
    refine ⟨hlock, fun hash bytes hget => h.store hash bytes ?_, h.pending, h.pushed, ?_,
      marked_prunerStep h.store hwritten h.retainedOk.1 h.retainedOk.2 h.marked⟩
    · exact (getTrieNode_delete_iff.mp (hdb ▸ hget)).1
    show retained ⊆ (prunerStep cfg head c.shared c.pruner).1.retained ∧
      (prunerStep cfg head c.shared c.pruner).1.retained ⊆ retained ++ [new]
    rw [hsame]
    exact h.retainedOk
  | commit =>
    obtain heq | ⟨action, rest, hcommit, -, heq, -⟩ := h.lock.commit_cases cfg head
    · rw [heq]
      exact h
    have hpending := h.pending
    have hpushed := h.pushed
    rw [hcommit] at hpending hpushed
    rw [heq] at hlock ⊢
    refine ⟨hlock, fun hash bytes hget => ?_,
      fun e he => hpending e (mem_append_right _ he),
      fun r hr => hpushed r (mem_cons_of_mem _ hr), ?_, h.marked⟩
    · rw [getTrieNode_perform] at hget
      have hne : ∀ e ∈ actionNodes action, e.2 ≠ [] :=
        fun e he => (hpending e (mem_append_left _ he)).2
      rcases ZbxDb.getTrieNode_writeTrieNodes hne hget with hold | hnew
      · exact h.store hash bytes hold
      · exact (hpending _ (mem_append_left _ hnew)).1
    cases action with
    | pushRetained r =>
      obtain rfl := hpushed r mem_cons_self
      refine ⟨Subset.trans h.retainedOk.1 (subset_append_left _ _), ?_⟩
      exact append_subset.mpr ⟨h.retainedOk.2, subset_append_right _ _⟩
    | _ => exact h.retainedOk

/-! ## What becomes of a node -/

theorem PendingDelete.holdsLock {h : H256} (hdelete : PendingDelete p h) : p.holdsLock = true := by
  cases p with
  | sweeping roots live entries acc => rfl
  | _ => cases hdelete

theorem remains_prunerStep (s : Shared) (hscan : ∀ roots live, p ≠ .scan roots live) (h : H256)
    (bytes : Bytes) : Remains (prunerStep cfg head s p) h bytes ↔ Remains (s, p) h bytes := by
  cases hacquire : p.atAcquire with
  | true =>
    cases p with
    | acquire roots live =>
      obtain ⟨hstep, -⟩ | ⟨hstep, -⟩ := prunerStep_acquire cfg head s roots live <;> rw [hstep]
      all_goals exact Iff.rfl
    | _ => cases hacquire
  | false =>
    cases hholds : p.holdsLock with
    | true =>
      cases p with
      | scan roots live => exact absurd rfl (hscan roots live)
      | sweeping roots live entries acc => exact remains_sweeping s roots live entries acc h bytes
      | release acc => exact Iff.rfl
      | _ => cases hholds
    | false =>
      obtain ⟨hshared, hheld⟩ := prunerStep_of_not_held cfg head s hholds hacquire
      unfold Remains
      rw [hshared]
      refine and_congr_right fun _ => not_congr ⟨fun hdelete => ?_, fun hdelete => ?_⟩
      · have htrue := hdelete.holdsLock
        rw [hheld] at htrue
        cases htrue
      have htrue := hdelete.holdsLock
      rw [hholds] at htrue
      cases htrue

theorem kept_commitStep (h : RaceInv U cfg head retained new c) (hash : H256) :
    Kept (c.step cfg head .commit) hash ↔ Kept c hash := by
  obtain heq | ⟨action, rest, hcommit, -, heq, hholds⟩ :=
    h.lock.commit_cases cfg head
  · rw [heq]
  have hpending := h.pending
  rw [hcommit] at hpending
  have hne : ∀ e ∈ actionNodes action, e.2 ≠ [] :=
    fun e he => (hpending e (mem_append_left _ he)).2
  have hnot : ¬ PendingDelete c.pruner hash := by
    intro hdelete
    have htrue := hdelete.holdsLock
    rw [hholds] at htrue
    cases htrue
  rw [heq]
  unfold Kept Remains
  rw [hcommit]
  simp only [hnot, not_false_iff, and_true, ← Option.isSome_iff_exists]
  rw [getTrieNode_perform, ZbxDb.isSome_getTrieNode_writeTrieNodes _ hne]
  show _ ↔ _ ∨ hash ∈ (actionNodes action ++ pendingNodes rest).map Prod.fst
  rw [map_append, mem_append, or_assoc]

theorem kept_prunerStep (hscan : ∀ roots live, c.pruner ≠ .scan roots live) (hash : H256) :
    Kept (c.step cfg head .pruner) hash ↔ Kept c hash :=
  or_congr (exists_congr fun bytes => remains_prunerStep c.shared hscan hash bytes) Iff.rfl

theorem kept_scan {roots : List Retained} {live : List H256} (hscan : c.pruner = .scan roots live)
    (hash : H256) : Kept (c.step cfg head .pruner) hash ↔
      (c.shared.db.getTrieNode hash).isSome ∧ hash ∈ live ∨
        hash ∈ (pendingNodes c.commit).map Prod.fst := by
  have hstep : prunerStep cfg head c.shared c.pruner =
      (c.shared, .sweeping roots live c.shared.db.forEachTrieNode .start) := by
    rw [hscan]
    rfl
  rw [System.step_pruner hstep]
  refine or_congr ?_ Iff.rfl
  simp only [remains_scanned, exists_and_right, ← Option.isSome_iff_exists]

/-! ## Whole runs -/

def System.finished (c : System) : Bool :=
  match c.pruner with
  | .finished _ => c.commit.isEmpty
  | _ => false

theorem System.of_finished (h : c.finished = true) :
    c.commit = [] ∧ ∃ stats, c.pruner = .finished stats := by
  obtain ⟨s, p, commit⟩ := c
  cases p with
  | finished stats => exact ⟨isEmpty_iff.mp h, stats, rfl⟩
  | _ => cases h

theorem allKept_step_iff (hwritten : Written U (retained ++ [new])) (t : Thread)
    (h : RaceInv U cfg head retained new c) (hkept : AllKept U cfg head retained new c) :
    AllKept U cfg head retained new (c.step cfg head t) ↔ ScanSafe U new c t := by
  cases t with
  | commit =>
    refine ⟨nofun, fun _ hash hU hreach => ?_⟩
    exact (kept_commitStep h hash).mpr (hkept hash hU hreach)
  | pruner =>
    by_cases hscan : ∃ roots live, c.pruner = .scan roots live
    · obtain ⟨roots, live, hscan⟩ := hscan
      have hmarked := h.marked
      rw [hscan] at hmarked
      obtain ⟨hroots, hmark⟩ := hmarked
      have hlive := mark_exact (hwritten.mono hroots.2) hmark
      constructor
      · intro hnext roots' live' _ hscan' hash hstored hreach
        obtain ⟨rfl, rfl⟩ := PrunerState.scan.inj (hscan.symm.trans hscan')
        obtain ⟨bytes, hbytes⟩ := Option.isSome_iff_exists.mp hstored
        have hU : (U hash).isSome := by
          rw [h.store hash bytes hbytes]
          rfl
        have hnew := hnext hash hU (hreach.mono (subset_append_right _ _))
        exact ((kept_scan hscan hash).mp hnew).imp (fun hin => (hlive hash).mp hin.2) id
      · intro hsafe hash hU hreach
        rw [kept_scan hscan]
        rcases hkept hash hU hreach with ⟨bytes, hget, -⟩ | hpending
        · have hstored : (c.shared.db.getTrieNode hash).isSome :=
            Option.isSome_iff_exists.mpr ⟨bytes, hget⟩
          rcases reachable_append hreach with hold | hnew
          · exact .inl ⟨hstored, (hlive hash).mpr (hold.mono hroots.1)⟩
          · exact (hsafe roots live rfl hscan hash hstored hnew).imp
              (fun hin => ⟨hstored, (hlive hash).mpr hin⟩) id
        · exact .inr hpending
    · have hno : ∀ roots live, c.pruner ≠ .scan roots live :=
        fun roots live heq => hscan ⟨roots, live, heq⟩
      refine ⟨fun _ roots live _ heq => absurd heq (hno roots live), fun _ hash hU hreach => ?_⟩
      exact (kept_prunerStep hno hash).mpr (hkept hash hU hreach)

theorem allKept_of_step (t : Thread) (h : RaceInv U cfg head retained new c)
    (hnext : AllKept U cfg head retained new (c.step cfg head t)) :
    AllKept U cfg head retained new c := by
  intro hash hU hreach
  have hkept := hnext hash hU hreach
  cases t with
  | commit => exact (kept_commitStep h hash).mp hkept
  | pruner =>
    by_cases hscan : ∃ roots live, c.pruner = .scan roots live
    · obtain ⟨roots, live, hscan⟩ := hscan
      refine ((kept_scan hscan hash).mp hkept).imp (fun ⟨hstored, _⟩ => ?_) id
      obtain ⟨bytes, hbytes⟩ := Option.isSome_iff_exists.mp hstored
      refine ⟨bytes, hbytes, ?_⟩
      rw [hscan]
      exact id
    · exact (kept_prunerStep (fun roots live heq => hscan ⟨roots, live, heq⟩) hash).mp hkept

theorem allKept_iff_of_finished (h : RaceInv U cfg head retained new c)
    (hdone : c.finished = true) : AllKept U cfg head retained new c ↔
      ∀ hash, Reachable U (snapshotRetained cfg head retained ++ [new]) hash →
        c.shared.db.getTrieNode hash = U hash := by
  obtain ⟨hcommit, stats, hpruner⟩ := System.of_finished hdone
  have hiff : ∀ hash, Kept c hash ↔ (c.shared.db.getTrieNode hash).isSome := by
    intro hash
    unfold Kept Remains
    rw [hcommit, hpruner]
    simp [pendingNodes, PendingDelete, Option.isSome_iff_exists]
  constructor
  · intro hkept hash hreach
    cases hU : U hash with
    | none =>
      rw [Option.eq_none_iff_forall_ne_some]
      intro bytes hget
      have hsome := h.store hash bytes hget
      rw [hU] at hsome
      cases hsome
    | some bytes =>
      have hstored := (hiff hash).mp (hkept hash (by rw [hU]; rfl) hreach)
      obtain ⟨bytes', hbytes'⟩ := Option.isSome_iff_exists.mp hstored
      rw [hbytes', ← hU]
      exact (h.store hash bytes' hbytes').symm
  · intro hall hash hU hreach
    rw [hiff, hall hash hreach]
    exact hU

end

theorem pendingNodes_commitActions (pending : List (H256 × Bytes)) (block : Block)
    (exec : ExecutionResult) : pendingNodes (commitActions pending block exec) = pending := by
  have hputs : pendingNodes (exec.stateDiff.accounts.entries.map fun e =>
      CommitAction.putAccount e.1 e.2) = [] := by
    refine flatMap_eq_nil_iff.mpr fun action haction => ?_
    obtain ⟨e, -, rfl⟩ := mem_map.mp haction
    rfl
  have hflush : pendingNodes (flushActions pending) = pending := by
    unfold flushActions
    split
    · next hnil =>
      rw [hnil]
      rfl
    · simp [pendingNodes, actionNodes]
  unfold pendingNodes at hputs hflush ⊢
  unfold commitActions
  simp only [flatMap_append]
  rw [hputs, hflush]
  simp [putBlockActions, actionNodes]

def checkpoint (block : Block) : Retained := ⟨block.header.number, block.header.stateRoot⟩

theorem pushed_commitActions {block : Block} {exec : ExecutionResult} {r : Retained}
    (h : .pushRetained r ∈ commitActions pending block exec) : r = checkpoint block := by
  have hflush : CommitAction.pushRetained r ∉ flushActions pending := by
    unfold flushActions
    split
    · simp
    · simp
  unfold commitActions putBlockActions at h
  simp only [mem_append, mem_cons, not_mem_nil, hflush, mem_map] at h
  simpa [checkpoint] using h

/-- Along any interleaving of a run of the pruner and a commit at whose end both are done, every
node that the new root or one that had to be retained reaches is still stored if and only if the
scan finds no node of the new trie that has not been marked and will not be written. -/
theorem commit_race_iff (cfg : RocksDbPrunerConfig) (head : UInt64) (db : ZbxDb)
    (retained : List Retained) (pending : List (H256 × Bytes)) (block : Block)
    (exec : ExecutionResult) (threads : List Thread) (hcontent : ContentAddressed db pending)
    (hcollision : CollisionFree (nodeBytes db pending))
    (hwritten : Written (nodesOf db pending) (retained ++ [checkpoint block]))
    (hdone : (threads.foldl (System.step cfg head)
      (.start db retained (commitActions pending block exec))).finished = true) :
    (∀ h, Reachable (nodesOf db pending)
        (snapshotRetained cfg head retained ++ [checkpoint block]) h →
      (threads.foldl (System.step cfg head)
        (.start db retained (commitActions pending block exec))).shared.db.getTrieNode h =
          nodesOf db pending h) ↔
      Meets (System.step cfg head) (ScanSafe (nodesOf db pending) (checkpoint block))
        (.start db retained (commitActions pending block exec)) threads := by
  have hstart : RaceInv (nodesOf db pending) cfg head retained (checkpoint block)
      (.start db retained (commitActions pending block exec)) := by
    refine ⟨.start db retained pending block exec, fun h bytes hget => ?_, fun e he => ?_,
      fun r hr => pushed_commitActions hr,
      ⟨Subset.refl _, subset_append_left _ _⟩, trivial⟩
    · unfold nodesOf
      rw [show db.getTrieNode h = some bytes from hget, Option.some_or]
    · have hmem : e ∈ pending := pendingNodes_commitActions pending block exec ▸ he
      exact ⟨nodesOf_pending hcontent hcollision hmem, (hcontent.2 e hmem).2⟩
  have hkept : AllKept (nodesOf db pending) cfg head retained (checkpoint block)
      (.start db retained (commitActions pending block exec)) := by
    intro h hU _
    obtain ⟨bytes, hbytes⟩ := Option.isSome_iff_exists.mp hU
    rcases Option.or_eq_some_iff.mp hbytes with hstored | ⟨-, hlookup⟩
    · exact .inl ⟨bytes, hstored, id⟩
    refine .inr ?_
    obtain ⟨before, after, heq, -⟩ := lookup_eq_some_iff.mp hlookup
    show h ∈ (pendingNodes (commitActions pending block exec)).map Prod.fst
    rw [pendingNodes_commitActions]
    refine mem_map.mpr ⟨(h, bytes), ?_, rfl⟩
    rw [heq]
    exact mem_append_right _ mem_cons_self
  have hinv : ∀ c t, RaceInv (nodesOf db pending) cfg head retained (checkpoint block) c →
      RaceInv (nodesOf db pending) cfg head retained (checkpoint block) (c.step cfg head t) :=
    fun c t h => h.step hwritten t
  have hlast : RaceInv (nodesOf db pending) cfg head retained (checkpoint block)
      (threads.foldl (System.step cfg head)
        (.start db retained (commitActions pending block exec))) :=
    foldl_of_meets (C := fun _ _ => True) (fun c t h _ => hinv c t h) hstart
      (fun _ _ _ _ => trivial)
  rw [← allKept_iff_of_finished hlast hdone]
  exact last_iff_meets (fun t _ c => hinv c t) (fun t _ c h hk => allKept_step_iff hwritten t h hk)
    (fun t _ c h hnext => allKept_of_step t h hnext) hstart hkept

/-! ## A commit between mark and lock -/

-- for the literals of nibbles below
local instance neZero16 : NeZero 16 := ⟨by decide⟩

def oldNode : H256 × Bytes := (leafRoot [1], (leafNode [1]).encode)

def newNode : H256 × Bytes := (leafRoot [2], (leafNode [2]).encode)

def oldDb : ZbxDb := ZbxDb.empty.writeTrieNodes [oldNode]

def newBlock : Block :=
  { Block.first [] with header := { (Block.first []).header with stateRoot := leafRoot [2] } }

def newResult : ExecutionResult := ⟨[], ⟨∅, ∅, [], []⟩, 0, leafRoot [2], .new, none⟩

def beforeBoth : System :=
  .start oldDb [⟨0, leafRoot [1]⟩] (commitActions [newNode] newBlock newResult)

theorem getTrieNode_oldDb {bytes : Bytes} (hget : oldDb.getTrieNode h = some bytes) :
    (h, bytes) = oldNode := by
  have hne : ∀ e ∈ [oldNode], e.2 ≠ [] := by decide
  exact (ZbxDb.getTrieNode_writeTrieNodes hne hget).elim nofun mem_singleton.mp

theorem contentAddressed_oldDb : ContentAddressed oldDb [newNode] := by
  refine ⟨fun h bytes hget => ?_, fun e he => ?_⟩
  · obtain ⟨rfl, rfl⟩ := Prod.mk.inj (getTrieNode_oldDb hget)
    rfl
  · rw [mem_singleton.mp he]
    exact ⟨rfl, by decide⟩

theorem collisionFree_oldDb : CollisionFree (nodeBytes oldDb [newNode]) := by
  have hnodup : ([oldNode.2, newNode.2].dedup.map keccak256).Nodup := by decide +kernel
  refine (collisionFree_of_nodup hnodup).mono ?_
  rintro bytes (⟨h, hget⟩ | ⟨h, hmem⟩)
  · rw [(Prod.mk.inj (getTrieNode_oldDb hget)).2]
    exact mem_cons_self
  · rw [(Prod.mk.inj (mem_singleton.mp hmem)).2]
    exact mem_cons_of_mem _ mem_cons_self

theorem onlyLeaves_oldDb :
    OnlyLeaves (nodesOf oldDb [newNode]) ([⟨0, leafRoot [1]⟩] ++ [checkpoint newBlock]) := by
  intro c hc
  rcases mem_cons.mp hc with rfl | hc
  · exact ⟨[1], by decide, by decide +kernel⟩
  · rw [mem_singleton.mp hc]
    exact ⟨[2], by decide, by decide +kernel⟩

def oneAfterTheOther : List Thread := replicate 10 .commit ++ replicate 20 .pruner

theorem commit_then_prune_safe :
    (oneAfterTheOther.foldl (System.step .default 1) beforeBoth).finished = true ∧
      Meets (System.step .default 1) (ScanSafe (nodesOf oldDb [newNode]) (checkpoint newBlock))
        beforeBoth oneAfterTheOther := by
  have hdone : (oneAfterTheOther.foldl (System.step .default 1) beforeBoth).finished = true := by
    decide +kernel
  have hstored : (oneAfterTheOther.foldl (System.step .default 1) beforeBoth).shared.db.getTrieNode
      (leafRoot [1]) = nodesOf oldDb [newNode] (leafRoot [1]) ∧
      (oneAfterTheOther.foldl (System.step .default 1) beforeBoth).shared.db.getTrieNode
        (leafRoot [2]) = nodesOf oldDb [newNode] (leafRoot [2]) := by decide +kernel
  refine ⟨hdone, (commit_race_iff .default 1 oldDb [⟨0, leafRoot [1]⟩] [newNode] newBlock newResult
    oneAfterTheOther contentAddressed_oldDb collisionFree_oldDb (written_leaves onlyLeaves_oldDb)
    hdone).mp ?_⟩
  rintro h ⟨account, hreach⟩
  have hsub : snapshotRetained .default 1 [⟨0, leafRoot [1]⟩] ⊆ [⟨0, leafRoot [1]⟩] :=
    filter_subset_self _
  obtain ⟨-, c, hc, rfl⟩ := reaches_leaves onlyLeaves_oldDb
    (hreach.mono (append_subset.mpr ⟨Subset.trans hsub (subset_append_left _ _),
      subset_append_right _ _⟩))
  rcases mem_cons.mp hc with rfl | hc
  · exact hstored.1
  · rw [mem_singleton.mp hc]
    exact hstored.2

def commitAfterMark : List Thread :=
  replicate 6 .pruner ++ replicate 10 .commit ++ replicate 20 .pruner

/-- The commit has flushed the node of its trie under the guard and pushed its root, and at the end
the node is not there. -/
theorem commit_after_mark_lost :
    (commitAfterMark.foldl (System.step .default 0) beforeBoth).finished = true ∧
      Reachable (nodesOf oldDb [newNode]) [checkpoint newBlock] (leafRoot [2]) ∧
      nodesOf oldDb [newNode] (leafRoot [2]) = some (leafNode [2]).encode ∧ checkpoint newBlock ∈
        (commitAfterMark.foldl (System.step .default 0) beforeBoth).shared.retained ∧
      (commitAfterMark.foldl (System.step .default 0) beforeBoth).shared.db.getTrieNode
        (leafRoot [2]) = none := by
  have hne : leafRoot [2] ≠ 0 := by decide +kernel
  exact ⟨by decide +kernel, ⟨true, .root (c := checkpoint newBlock) mem_cons_self hne⟩,
    by decide +kernel, by decide +kernel, by decide +kernel⟩

end Pruner

end ZbxChain
