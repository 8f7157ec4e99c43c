import ZbxChain.Pruner.Reachability

/-!
# What a run of the pruner leaves

A run without anyone else at the database, from its start to its end. The window of heights that it
keeps is `[head - retain_blocks + 1, head]`, except when `head` is the largest height there is:
then the addition of one saturates, and one height more is kept.
-/

namespace ZbxChain

open List Option

theorem ZbxDb.getTrieNode_deleteTrieNodes (db : ZbxDb) (hashes : List H256) (h : H256) :
    (db.deleteTrieNodes hashes).getTrieNode h =
      if hashes.contains h then none else db.getTrieNode h := by
  unfold deleteTrieNodes getTrieNode
  induction hashes generalizing db with
  | nil => rfl
  | cons a hashes ih =>
    rw [foldl_cons]
    have hrest := ih { db with trieNodes := db.trieNodes.erase a }
    rw [hrest]
    by_cases ha : h = a
    · subst ha
      simp [AList.lookup_erase]
    · rw [AList.lookup_erase_ne ha]
      simp [ha]

theorem ZbxDb.mem_forEachTrieNode {db : ZbxDb} {h : H256} :
    (∃ len, (h, len) ∈ db.forEachTrieNode) ↔ (db.getTrieNode h).isSome := by
  unfold forEachTrieNode getTrieNode
  rw [AList.lookup_isSome]
  constructor
  · rintro ⟨len, hmem⟩
    obtain ⟨e, he, heq⟩ := mem_map.mp hmem
    exact mem_map.mpr ⟨e, he, congrArg Prod.fst heq⟩
  intro hmem
  obtain ⟨e, he, rfl⟩ := mem_map.mp hmem
  exact ⟨e.2.length, mem_map.mpr ⟨e, he, rfl⟩⟩

namespace Pruner

variable {cfg : RocksDbPrunerConfig} {head : UInt64}

/-! ## Sweeping -/

def PendingDelete : PrunerState → H256 → Prop
  | .sweeping _ live entries acc, h => h ∈ acc.toDelete ∨ h ∉ live ∧ ∃ len, (h, len) ∈ entries
  | _, _ => False

def Remains (x : Shared × PrunerState) (h : H256) (bytes : Bytes) : Prop :=
  x.1.db.getTrieNode h = some bytes ∧ ¬ PendingDelete x.2 h

variable {h : H256} {entry : H256 × Nat} {U : H256 → Option Bytes} {entries : List (H256 × Nat)}
  {live : List H256} {roots : List Retained} {todo : List WalkCall} {stats : RunStats} {s : Shared}
  {acc : Sweep} {db : ZbxDb}

theorem getTrieNode_delete_iff {hashes : List H256} {bytes : Bytes} :
    (db.deleteTrieNodes hashes).getTrieNode h = some bytes ↔
      db.getTrieNode h = some bytes ∧ h ∉ hashes := by
  rw [ZbxDb.getTrieNode_deleteTrieNodes]
  by_cases hmem : h ∈ hashes
  · simp [hmem]
  · simp [hmem]

theorem pendingDelete_keep (hlive : entry.1 ∈ live) (h : H256) :
    PendingDelete (.sweeping roots live entries acc.keep) h ↔
      PendingDelete (.sweeping roots live (entry :: entries) acc) h := by
  refine or_congr Iff.rfl (and_congr_right fun hnot => exists_congr fun len => ?_)
  constructor
  · exact mem_cons_of_mem _
  intro hmem
  rcases mem_cons.mp hmem with heq | hmem
  · rw [← heq] at hlive
    exact absurd hlive hnot
  · exact hmem

theorem pendingDelete_push (hdead : entry.1 ∉ live) (h : H256) :
    PendingDelete (.sweeping roots live entries (acc.push entry.1 entry.2)) h ↔
      PendingDelete (.sweeping roots live (entry :: entries) acc) h := by
  unfold PendingDelete
  dsimp only [Sweep.push]
  rw [mem_append, mem_singleton]
  constructor
  · rintro ((hmem | rfl) | ⟨hnot, len, hmem⟩)
    · exact .inl hmem
    · exact .inr ⟨hdead, entry.2, mem_cons_self⟩
    · exact .inr ⟨hnot, len, mem_cons_of_mem _ hmem⟩
  rintro (hmem | ⟨hnot, len, hmem⟩)
  · exact .inl (.inl hmem)
  rcases mem_cons.mp hmem with heq | hmem
  · exact .inl (.inr (congrArg Prod.fst heq))
  · exact .inr ⟨hnot, len, hmem⟩

theorem remains_drain (h : H256) (bytes : Bytes) :
    Remains ({ s with db := s.db.deleteTrieNodes acc.toDelete },
        .sweeping roots live entries acc.drain) h bytes ↔
      Remains (s, .sweeping roots live entries acc) h bytes := by
  unfold Remains PendingDelete
  dsimp only [Sweep.drain]
  rw [getTrieNode_delete_iff, not_or, not_or, and_assoc]
  simp

theorem remains_sweeping (s : Shared) (roots : List Retained) (live : List H256)
    (entries : List (H256 × Nat)) (acc : Sweep) (h : H256) (bytes : Bytes) :
    Remains (prunerStep cfg head s (.sweeping roots live entries acc)) h bytes ↔
      Remains (s, .sweeping roots live entries acc) h bytes := by
  cases entries with
  | nil =>
    rw [prunerStep_sweeping_nil]
    split
    · next hnone => simp [Remains, PendingDelete, hnone]
    have hdrain := @remains_drain [] live roots s acc h bytes
    rw [← hdrain]
    simp [Remains, PendingDelete, Sweep.drain]
  | cons entry entries =>
    rw [prunerStep_sweeping_cons]
    unfold sweepStep
    split
    · next hlive =>
      exact and_congr_right fun _ =>
        not_congr (pendingDelete_keep (contains_iff_mem.mp hlive) h)
    · next hdead =>
      have hpush : Remains (s, .sweeping roots live entries (acc.push entry.1 entry.2)) h bytes ↔
          Remains (s, .sweeping roots live (entry :: entries) acc) h bytes :=
        and_congr_right fun _ => not_congr (pendingDelete_push
          (fun hmem => hdead (contains_iff_mem.mpr hmem)) h)
      dsimp only
      split
      · rw [remains_drain]
        exact hpush
      · exact hpush

theorem remains_scanned (s : Shared) (roots : List Retained) (live : List H256) (h : H256)
    (bytes : Bytes) : Remains (s, .sweeping roots live s.db.forEachTrieNode .start) h bytes ↔
      s.db.getTrieNode h = some bytes ∧ h ∈ live := by
  refine and_congr_right fun hget => ?_
  have hstored : ∃ len, (h, len) ∈ s.db.forEachTrieNode := by
    rw [ZbxDb.mem_forEachTrieNode, hget]
    rfl
  unfold PendingDelete
  simp [Sweep.start, hstored]

/-! ## A run alone -/

def Ends (cfg : RocksDbPrunerConfig) (head : UInt64) (x : Shared × PrunerState) (s : Shared)
    (stats : RunStats) : Prop :=
  ∃ n, (fun y => prunerStep cfg head y.1 y.2)^[n] x = (s, .finished stats)

theorem Ends.of_step {x : Shared × PrunerState}
    (h : Ends cfg head (prunerStep cfg head x.1 x.2) s stats) : Ends cfg head x s stats := by
  obtain ⟨n, hn⟩ := h
  exact ⟨n + 1, hn⟩

theorem Ends.of_walkStep {s' : Shared} {call : WalkCall} {p : PrunerState}
    (hstep : walkStep s.db roots call todo live = p) (h : Ends cfg head (s, p) s' stats) :
    Ends cfg head (s, .marking roots (call :: todo) live) s' stats := by
  refine Ends.of_step ?_
  rw [prunerStep_marking_cons, hstep]
  exact h

theorem ends_finished (s : Shared) (stats : RunStats) :
    Ends cfg head (s, .finished stats) s stats := ⟨0, rfl⟩

variable (cfg head) in
theorem ends_sweeping (s : Shared) (roots : List Retained) (live : List H256)
    (entries : List (H256 × Nat)) (acc : Sweep) :
    ∃ s' stats, Ends cfg head (s, .sweeping roots live entries acc) s' stats ∧
      stats.aborted = false ∧ ∀ h bytes, s'.db.getTrieNode h = some bytes ↔
        Remains (s, .sweeping roots live entries acc) h bytes := by
  induction entries generalizing s acc with
  | nil =>
    have hlast : ∀ h bytes, Remains (prunerStep cfg head s (.sweeping roots live [] acc)) h bytes ↔
        Remains (s, .sweeping roots live [] acc) h bytes :=
      fun h bytes => remains_sweeping s roots live [] acc h bytes
    have hrelease : ∃ t acc', prunerStep cfg head s (.sweeping roots live [] acc) =
        (t, .release acc') := by
      rw [prunerStep_sweeping_nil]
      split
      · exact ⟨_, _, rfl⟩
      · exact ⟨_, _, rfl⟩
    obtain ⟨t, acc', hstep⟩ := hrelease
    refine ⟨{ t with lock := { t.lock with writer := false } }, acc'.stats, Ends.of_step ?_, rfl,
      fun h bytes => ?_⟩
    · rw [hstep]
      exact Ends.of_step (ends_finished _ _)
    · rw [← hlast, hstep]
      simp [Remains, PendingDelete]
  | cons entry entries ih =>
    have hgoes : ∃ t acc', prunerStep cfg head s (.sweeping roots live (entry :: entries) acc) =
        (t, .sweeping roots live entries acc') := by
      rw [prunerStep_sweeping_cons]
      unfold sweepStep
      split
      · exact ⟨_, _, rfl⟩
      dsimp only
      split
      · exact ⟨_, _, rfl⟩
      · exact ⟨_, _, rfl⟩
    obtain ⟨t, acc', hstep⟩ := hgoes
    obtain ⟨s', stats, hends, haborted, hstore⟩ := ih t acc'
    refine ⟨s', stats, Ends.of_step ?_, haborted, fun h bytes => ?_⟩
    · rw [hstep]
      exact hends
    · rw [hstore, ← hstep, remains_sweeping]

def Complete (U : H256 → Option Bytes) (roots : List Retained) : Prop :=
  ∀ h, Reachable U roots h → (U h).isSome

variable (cfg head) in
theorem ends_marking (hwritten : Written s.db.getTrieNode roots) (n m : Nat)
    (hn : Marking.unvisited s.db.trieNodes.keys live = n) (hm : todo.length = m)
    (h : MarkInv s.db.getTrieNode roots todo live) :
    Ends cfg head (s, .marking roots todo live) s .abort ∧ ¬ Complete s.db.getTrieNode roots ∨
      ∃ live', MarkInv s.db.getTrieNode roots [] live' ∧ ∀ s' stats,
        Ends cfg head (s, .acquire roots live') s' stats →
          Ends cfg head (s, .marking roots todo live) s' stats := by
  induction n using Nat.strong_induction_on generalizing m todo live with
  | h n ihn =>
    induction m generalizing todo with
    | zero =>
      obtain rfl := length_eq_zero_iff.mp hm
      exact .inr ⟨live, h, fun s' stats hends => Ends.of_step hends⟩
    | succ m ihm =>
      cases todo with
      | nil => cases hm
      | cons call todo =>
        have hcases := walkStep_cases (fun _ _ hget => hget) hwritten h
        obtain ⟨hstep, hinv⟩ | ⟨node, hstep, hinv, hnew, hstored⟩ | ⟨hstep, hreach, hmissing⟩ :=
          hcases
        · exact (ihm (Nat.succ.inj hm) hinv).imp (And.imp_left (Ends.of_walkStep hstep))
            fun ⟨live', hlive', hends⟩ =>
              ⟨live', hlive', fun s' stats he => (hends s' stats he).of_walkStep hstep⟩
        · have hmem : call.1 ∈ s.db.trieNodes.keys := AList.lookup_isSome.mp hstored
          have hless := Marking.unvisited_cons_lt hmem hnew
          rw [hn] at hless
          exact (ihn _ hless _ rfl rfl hinv).imp (And.imp_left (Ends.of_walkStep hstep))
            fun ⟨live', hlive', hends⟩ =>
              ⟨live', hlive', fun s' stats he => (hends s' stats he).of_walkStep hstep⟩
        refine .inl ⟨(ends_finished _ _).of_walkStep hstep, fun hcomplete => ?_⟩
        have hsome := hcomplete call.1 hreach
        rw [hmissing] at hsome
        cases hsome

variable (cfg head) in
theorem runOnce_ends (db : ZbxDb) (retained : List Retained)
    (hwritten : Written db.getTrieNode (snapshotRetained cfg head retained)) :
    (∃ s, Ends cfg head (⟨db, retained, .free⟩, .start) s .abort ∧ s.db = db ∧
      (snapshotRetained cfg head retained = [] ∨
        ¬ Complete db.getTrieNode (snapshotRetained cfg head retained))) ∨
    ∃ s stats, Ends cfg head (⟨db, retained, .free⟩, .start) s stats ∧ stats.aborted = false ∧
      snapshotRetained cfg head retained ≠ [] ∧
      Complete db.getTrieNode (snapshotRetained cfg head retained) ∧
      ∀ h bytes, s.db.getTrieNode h = some bytes ↔ db.getTrieNode h = some bytes ∧
        Reachable db.getTrieNode (snapshotRetained cfg head retained) h := by
  by_cases hretained : retained = []
  · refine .inl ⟨⟨db, retained, .free⟩, Ends.of_step ?_, rfl, .inl (by rw [hretained]; rfl)⟩
    show Ends cfg head (_, if retained = [] then .finished .abort else .window) _ _
    rw [if_pos hretained]
    exact ends_finished _ _
  have hstart : ∀ s stats, Ends cfg head (⟨db, retained, .free⟩, .window) s stats →
      Ends cfg head (⟨db, retained, .free⟩, .start) s stats := by
    intro s stats hends
    refine Ends.of_step ?_
    show Ends cfg head (_, if retained = [] then .finished .abort else .window) _ _
    rw [if_neg hretained]
    exact hends
  by_cases hwindow : snapshotRetained cfg head retained = []
  · refine .inl ⟨⟨db, retained, .free⟩, hstart _ _ (Ends.of_step ?_), rfl, .inl hwindow⟩
    show Ends cfg head (_, if snapshotRetained cfg head retained = [] then .finished .abort
      else .snapshot) _ _
    rw [if_pos hwindow]
    exact ends_finished _ _
  have hmarking : ∀ s stats, Ends cfg head (⟨db, retained, .free⟩,
      .marking (snapshotRetained cfg head retained)
        (rootCalls (snapshotRetained cfg head retained)) []) s stats →
      Ends cfg head (⟨db, retained, .free⟩, .start) s stats := by
    intro s stats hends
    refine hstart _ _ (Ends.of_step ?_)
    show Ends cfg head (_, if snapshotRetained cfg head retained = [] then .finished .abort
      else .snapshot) _ _
    rw [if_neg hwindow]
    exact Ends.of_step hends
  obtain ⟨hends, hincomplete⟩ | ⟨live, hlive, hends⟩ := ends_marking cfg head
    (s := ⟨db, retained, .free⟩) hwritten _ _ rfl rfl (.start _ _)
  · exact .inl ⟨_, hmarking _ _ hends, rfl, .inr hincomplete⟩
  have hexact := mark_exact hwritten hlive
  obtain ⟨s, stats, hsweep, haborted, hstore⟩ := ends_sweeping cfg head
    ⟨db, retained, ⟨0, true, false⟩⟩ (snapshotRetained cfg head retained) live
    db.forEachTrieNode .start
  refine .inr ⟨s, stats, hmarking _ _ (hends _ _ (Ends.of_step (Ends.of_step hsweep))),
    haborted, hwindow, fun h hreach => hlive.stored h ((hexact h).mpr hreach), ?_⟩
  intro h bytes
  rw [hstore, ← hexact]
  exact remains_scanned ⟨db, retained, ⟨0, true, false⟩⟩ _ live h bytes

/-! ## The window -/

/-- The checkpoints of the last `retain_blocks` heights up to `head`. -/
def windowRetained (cfg : RocksDbPrunerConfig) (head : UInt64) (retained : List Retained) :
    List Retained :=
  retained.filter fun c => head.toNat + 1 - cfg.retainBlocks.toNat ≤ c.block.toNat ∧ c.block ≤ head

variable (cfg head) in
theorem windowRetained_subset (retained : List Retained) :
    windowRetained cfg head retained ⊆ snapshotRetained cfg head retained := by
  intro c hc
  obtain ⟨hmem, hin⟩ := mem_filter.mp hc
  obtain ⟨hlow, hhigh⟩ := of_decide_eq_true hin
  refine mem_filter.mpr ⟨hmem, decide_eq_true ⟨?_, hhigh⟩⟩
  unfold cutoff
  omega

theorem snapshotRetained_eq {head : UInt64} (hhead : head.toNat + 1 < 2 ^ 64)
    (retained : List Retained) :
    snapshotRetained cfg head retained = windowRetained cfg head retained := by
  unfold snapshotRetained windowRetained cutoff
  rw [Nat.min_eq_left (by omega)]

/-- The run has aborted and the database is as it was, or it has not and what is stored is just
what the window reaches, as it was stored before. -/
def ExactSweep (cfg : RocksDbPrunerConfig) (head : UInt64) (db : ZbxDb) (retained : List Retained)
    (s : Shared) (stats : RunStats) : Prop :=
  stats.aborted = true ∧ s.db = db ∨
    stats.aborted = false ∧
      (∀ h, (s.db.getTrieNode h).isSome ↔
        Reachable db.getTrieNode (windowRetained cfg head retained) h) ∧
      ∀ h bytes, s.db.getTrieNode h = some bytes → db.getTrieNode h = some bytes

def NothingBelow (cfg : RocksDbPrunerConfig) (head : UInt64) (db : ZbxDb)
    (retained : List Retained) : Prop :=
  snapshotRetained cfg head retained ≠ [] →
    Complete db.getTrieNode (snapshotRetained cfg head retained) →
    ∀ h, Reachable db.getTrieNode (snapshotRetained cfg head retained) h →
      Reachable db.getTrieNode (windowRetained cfg head retained) h

theorem exactSweep_iff_of_ends {retained : List Retained}
    (hwritten : Written db.getTrieNode (snapshotRetained cfg head retained)) :
    ∃ s stats, Ends cfg head (⟨db, retained, .free⟩, .start) s stats ∧
      (ExactSweep cfg head db retained s stats ↔ NothingBelow cfg head db retained) := by
  obtain ⟨s, hends, hdb, hwhy⟩ | ⟨s, stats, hends, haborted, hne, hcomplete, hstore⟩ :=
    runOnce_ends cfg head db retained hwritten
  · refine ⟨s, .abort, hends, fun _ hne hcomplete => ?_, fun _ => .inl ⟨rfl, hdb⟩⟩
    exact (hwhy.elim hne fun hincomplete => hincomplete hcomplete).elim
  have hstored : ∀ h, (s.db.getTrieNode h).isSome ↔
      Reachable db.getTrieNode (snapshotRetained cfg head retained) h := by
    intro h
    constructor
    · intro hsome
      obtain ⟨bytes, hbytes⟩ := isSome_iff_exists.mp hsome
      exact ((hstore h bytes).mp hbytes).2
    intro hreach
    obtain ⟨bytes, hbytes⟩ := isSome_iff_exists.mp (hcomplete h hreach)
    exact isSome_iff_exists.mpr ⟨bytes, (hstore h bytes).mpr ⟨hbytes, hreach⟩⟩
  refine ⟨s, stats, hends, ?_, ?_⟩
  · rintro (⟨habort, -⟩ | ⟨-, hexact, -⟩) - - h hreach
    · rw [haborted] at habort
      cases habort
    · exact (hexact h).mp ((hstored h).mpr hreach)
  intro hbelow
  refine .inr ⟨haborted, fun h => ?_, fun h bytes hget => ((hstore h bytes).mp hget).1⟩
  rw [hstored]
  constructor
  · exact hbelow hne hcomplete h
  · rintro ⟨account, hreach⟩
    exact ⟨account, hreach.mono (windowRetained_subset cfg head retained)⟩

/-- A run of the pruner alone ends, and its sweep is exact if and only if `head` is not the last
height or the height below the window adds nothing. -/
theorem exact_sweep_iff (cfg : RocksDbPrunerConfig) (head : UInt64) (db : ZbxDb)
    (retained : List Retained) (hwritten : Written db.getTrieNode retained) :
    ∃ s stats, Ends cfg head (⟨db, retained, .free⟩, .start) s stats ∧
      (ExactSweep cfg head db retained s stats ↔
        (head.toNat + 1 < 2 ^ 64 ∨ NothingBelow cfg head db retained)) := by
  have hsub : snapshotRetained cfg head retained ⊆ retained := filter_subset_self _
  obtain ⟨s, stats, hends, hiff⟩ := exactSweep_iff_of_ends (hwritten.mono hsub)
  refine ⟨s, stats, hends, hiff.trans ⟨.inr, ?_⟩⟩
  rintro (hhead | hbelow)
  · intro _ _ h hreach
    rw [snapshotRetained_eq hhead] at hreach
    exact hreach
  · exact hbelow

/-! ## Two roots -/

def leafNode (path : Nibbles) : TrieNode := .leaf path (Mpt.encodeAccountRlp .default 0)

def leafRoot (path : Nibbles) : H256 := keccak256 (leafNode path).encode

def OnlyLeaves (U : H256 → Option Bytes) (roots : List Retained) : Prop :=
  ∀ c ∈ roots, ∃ path : Nibbles, path.length ≤ 64 ∧ U c.stateRoot = some (leafNode path).encode

theorem decode_leafNode {path : Nibbles} (h : path.length ≤ 64) :
    TrieNode.decode (leafNode path).encode = .ok (leafNode path) := by
  have hlen := Mpt.length_encodeAccountRlp_le .default 0
  have hfits : NibbleTree.Fits (.leaf path (Mpt.encodeAccountRlp .default 0)) := by
    show path.length + _ < 2 ^ 62
    omega
  exact NibbleTree.decode_toNode hfits

theorem reaches_leaves (hleaves : OnlyLeaves U roots) {account : Bool}
    (hreach : Reaches U roots account h) : account = true ∧ ∃ c ∈ roots, c.stateRoot = h := by
  have hnodes : ∀ c ∈ roots, ∃ path, nodeAt U c.stateRoot = some (leafNode path) := by
    intro c hc
    obtain ⟨path, hpath, hU⟩ := hleaves c hc
    refine ⟨path, ?_⟩
    unfold nodeAt
    rw [hU, bind_some, decode_leafNode hpath]
    rfl
  induction hreach with
  | root hc hne => exact ⟨rfl, _, hc, rfl⟩
  | link _ hnode hlink hne ih =>
    obtain ⟨-, c, hc, rfl⟩ := ih
    obtain ⟨path, hpath⟩ := hnodes c hc
    cases hpath.symm.trans hnode
    cases hlink
  | @storage h r node state _ hnode hvalue hne ih =>
    obtain ⟨-, c, hc, rfl⟩ := ih
    obtain ⟨path, hpath⟩ := hnodes c hc
    cases hpath.symm.trans hnode
    have heq := mem_singleton.mp hvalue
    have hroot := accountStorageRoot_account state r
    rw [heq, accountStorageRoot_account] at hroot
    exact absurd (some.inj hroot).symm hne

theorem written_leaves (hleaves : OnlyLeaves U roots) : Written U roots := by
  intro account h bytes hreach hU
  obtain ⟨rfl, c, hc, rfl⟩ := reaches_leaves hleaves hreach
  obtain ⟨path, hpath, hU'⟩ := hleaves c hc
  cases hU'.symm.trans hU
  refine ⟨leafNode path, decode_leafNode hpath, fun v hv => ?_⟩
  rw [mem_singleton.mp hv]
  exact ⟨.default, 0, rfl⟩

theorem complete_leaves (hleaves : OnlyLeaves U roots) : Complete U roots := by
  rintro h ⟨account, hreach⟩
  obtain ⟨-, c, hc, rfl⟩ := reaches_leaves hleaves hreach
  obtain ⟨path, -, hU⟩ := hleaves c hc
  rw [hU]
  rfl

def twoLeaves : ZbxDb :=
  ZbxDb.empty.writeTrieNodes
    [(leafRoot [1], (leafNode [1]).encode), (leafRoot [2], (leafNode [2]).encode)]

def lastHeight : UInt64 := 0xffffffffffffffff

def twoRetained (upper : UInt64) : List Retained :=
  [⟨upper - 1, leafRoot [1]⟩, ⟨upper, leafRoot [2]⟩]

theorem onlyLeaves_twoRetained (upper : UInt64) :
    OnlyLeaves twoLeaves.getTrieNode (twoRetained upper) := by
  have hfirst : twoLeaves.getTrieNode (leafRoot [1]) = some (leafNode [1]).encode := by
    decide +kernel
  have hsecond : twoLeaves.getTrieNode (leafRoot [2]) = some (leafNode [2]).encode := by
    decide +kernel
  intro c hc
  rcases mem_cons.mp hc with rfl | hc
  · exact ⟨[1], by decide, hfirst⟩
  · rw [mem_singleton.mp hc]
    exact ⟨[2], by decide, hsecond⟩

theorem exact_sweep_below_last : Written twoLeaves.getTrieNode (twoRetained 9) ∧
      ∃ s stats, Ends ⟨1, 1000⟩ 9 (⟨twoLeaves, twoRetained 9, .free⟩, .start) s stats ∧
        ExactSweep ⟨1, 1000⟩ 9 twoLeaves (twoRetained 9) s stats := by
  have hwritten := written_leaves (onlyLeaves_twoRetained 9)
  obtain ⟨s, stats, hends, hiff⟩ := exact_sweep_iff ⟨1, 1000⟩ 9 twoLeaves (twoRetained 9) hwritten
  exact ⟨hwritten, s, stats, hends, hiff.mpr (.inl (by decide))⟩

/-- With one block to retain, a run at the last height keeps the root of the height below too. -/
theorem last_height_keeps_two : Written twoLeaves.getTrieNode (twoRetained lastHeight) ∧
      ∃ s stats, Ends ⟨1, 1000⟩ lastHeight (⟨twoLeaves, twoRetained lastHeight, .free⟩, .start)
          s stats ∧ stats.aborted = false ∧ (s.db.getTrieNode (leafRoot [1])).isSome ∧
        ¬ Reachable twoLeaves.getTrieNode
          (windowRetained ⟨1, 1000⟩ lastHeight (twoRetained lastHeight)) (leafRoot [1]) := by
  have hleaves := onlyLeaves_twoRetained lastHeight
  have hwritten := written_leaves hleaves
  have hboth : snapshotRetained ⟨1, 1000⟩ lastHeight (twoRetained lastHeight) =
      twoRetained lastHeight := by decide +kernel
  have hupper : windowRetained ⟨1, 1000⟩ lastHeight (twoRetained lastHeight) =
      [⟨lastHeight, leafRoot [2]⟩] := by decide +kernel
  have hreach : Reachable twoLeaves.getTrieNode (twoRetained lastHeight) (leafRoot [1]) :=
    ⟨true, .root (c := ⟨lastHeight - 1, leafRoot [1]⟩) mem_cons_self (by decide +kernel)⟩
  have hcomplete := complete_leaves hleaves
  obtain ⟨s, -, -, hwhy⟩ | ⟨s, stats, hends, haborted, -, -, hstore⟩ :=
    runOnce_ends ⟨1, 1000⟩ lastHeight twoLeaves (twoRetained lastHeight) (hboth.symm ▸ hwritten)
  · rw [hboth] at hwhy
    exact (hwhy.elim (cons_ne_nil _ _) fun hincomplete => hincomplete hcomplete).elim
  rw [hboth] at hstore
  refine ⟨hwritten, s, stats, hends, haborted, ?_, ?_⟩
  · obtain ⟨bytes, hbytes⟩ := isSome_iff_exists.mp (hcomplete _ hreach)
    rw [(hstore _ bytes).mpr ⟨hbytes, hreach⟩]
    rfl
  rw [hupper]
  rintro ⟨account, hreach⟩
  have hsub : ([⟨lastHeight, leafRoot [2]⟩] : List Retained) ⊆ twoRetained lastHeight :=
    subset_cons_self _ _
  obtain ⟨-, c, hc, heq⟩ := reaches_leaves (fun c hc => hleaves c (hsub hc)) hreach
  rw [mem_singleton.mp hc] at heq
  exact absurd heq (by decide +kernel)

/-! ## Progress -/

/-- The nodes of the tries that the roots reach are stored; an empty trie has none. -/
def Present (U : H256 → Option Bytes) (roots : List Retained) : Prop :=
  ∀ h, Reachable U roots h → h = emptyStorageRoot ∨ (U h).isSome

/-- **Progress.** With all nodes present, a run with a checkpoint in its window comes to an end
without an abort just when the mark meets no empty trie, or finds a node for it. -/
theorem run_completes_iff (cfg : RocksDbPrunerConfig) (head : UInt64) (db : ZbxDb)
    (retained : List Retained)
    (hwritten : Written db.getTrieNode (snapshotRetained cfg head retained))
    (hpresent : Present db.getTrieNode (snapshotRetained cfg head retained)) :
    ∃ s stats, Ends cfg head (⟨db, retained, .free⟩, .start) s stats ∧
      (stats.aborted = false ↔ snapshotRetained cfg head retained ≠ [] ∧
        (Reachable db.getTrieNode (snapshotRetained cfg head retained) emptyStorageRoot →
          (db.getTrieNode emptyStorageRoot).isSome)) := by
  have hcomplete : Complete db.getTrieNode (snapshotRetained cfg head retained) ↔
      (Reachable db.getTrieNode (snapshotRetained cfg head retained) emptyStorageRoot →
        (db.getTrieNode emptyStorageRoot).isSome) := by
    refine ⟨fun h => h _, fun hempty h hreach => ?_⟩
    obtain rfl | hstored := hpresent h hreach
    · exact hempty hreach
    · exact hstored
  rw [← hcomplete]
  obtain ⟨s, hends, -, hwhy⟩ | ⟨s, stats, hends, haborted, hwindow, hstored, -⟩ :=
    runOnce_ends cfg head db retained hwritten
  · refine ⟨s, .abort, hends, iff_of_false (by decide) ?_⟩
    rintro ⟨hwindow, hstored⟩
    exact hwhy.elim hwindow fun hmissing => hmissing hstored
  · exact ⟨s, stats, hends, iff_of_true haborted ⟨hwindow, hstored⟩⟩

theorem two_leaves_complete :
    ∃ s stats, Ends ⟨1, 1000⟩ 9 (⟨twoLeaves, twoRetained 9, .free⟩, .start) s stats ∧
      stats.aborted = false := by
  have hleaves : OnlyLeaves twoLeaves.getTrieNode (snapshotRetained ⟨1, 1000⟩ 9 (twoRetained 9)) :=
    fun c hc => onlyLeaves_twoRetained 9 c (mem_of_mem_filter hc)
  have hstored := complete_leaves hleaves
  obtain ⟨s, stats, hends, hiff⟩ := run_completes_iff ⟨1, 1000⟩ 9 twoLeaves (twoRetained 9)
    (written_leaves hleaves) fun h hreach => .inr (hstored h hreach)
  exact ⟨s, stats, hends, hiff.mpr ⟨by decide +kernel, hstored _⟩⟩

def payeeNode : TrieNode :=
  .leaf (replicate 64 1) (Mpt.encodeAccountRlp { AccountState.default with balance := 1 } emptyStorageRoot)

def payeeRoot : H256 := keccak256 payeeNode.encode

def payeeRun : Shared × PrunerState :=
  (fun y => prunerStep ⟨1, 1000⟩ 9 y.1 y.2)^[5]
    (⟨ZbxDb.empty.writeTrieNodes [(payeeRoot, payeeNode.encode)], [⟨9, payeeRoot⟩], .free⟩, .start)

/-- The only node of the only trie is there, and the run gives up. -/
theorem payee_aborts : payeeRun.1.db.getTrieNode payeeRoot = some payeeNode.encode ∧
      (match payeeRun.2 with
        | .finished stats => stats.aborted
        | _ => false) = true := by
  decide +kernel

end Pruner

end ZbxChain
