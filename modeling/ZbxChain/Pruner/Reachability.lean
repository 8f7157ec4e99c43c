import ZbxChain.Lib.Marking
import ZbxChain.Pruner.System
import ZbxChain.State.AccountLeaves

/-!
# What a root reaches

Reachability in the node store, as it is meant: the links of a node, those of the nodes that stand
inside it, and from the account trie the storage trie of each account. The mark of the pruner has
one set of visited hashes for account tries and storage tries, though it expands a hash in
different ways in the two.
-/

namespace ZbxChain

open List Option

namespace Pruner

open Mpt

/-! ## Links and values -/

mutual

def nodeLinks : TrieNode → List H256
  | .empty => []
  | .leaf _ _ => []
  | .extension _ child => refLinks child
  | .branch children _ => (finRange 16).flatMap fun i => refLinks (children i)

def refLinks : NodeRef → List H256
  | .hash h => [h]
  | .inline node => nodeLinks node
  | .empty => []

end

mutual

def nodeValues : TrieNode → List Bytes
  | .empty => []
  | .leaf _ value => [value]
  | .extension _ child => refValues child
  | .branch children value =>
    ((finRange 16).flatMap fun i => refValues (children i)) ++ value.toList

def refValues : NodeRef → List Bytes
  | .hash _ => []
  | .inline node => nodeValues node
  | .empty => []

end

def CallsFor (account : Bool) (links : List H256) (values : List Bytes) (x : WalkCall) : Prop :=
  x.1 ∈ links ∧ x.2 = account ∨
    account = true ∧ x.2 = false ∧ ∃ v ∈ values, accountStorageRoot v = some x.1

variable {account : Bool} {v : Bytes} {U : H256 → Option Bytes} {roots roots' : List Retained}
  {x : WalkCall}

theorem mem_storageCall :
    x ∈ storageCall account v ↔ account = true ∧ x.2 = false ∧ accountStorageRoot v = some x.1 := by
  unfold storageCall
  obtain ⟨h, flag⟩ := x
  cases account with
  | false => simp
  | true =>
    cases hroot : accountStorageRoot v with
    | none => simp
    | some r =>
      simp only [if_true, mem_singleton, Prod.mk.injEq, true_and, some.injEq]
      constructor
      all_goals
        rintro ⟨rfl, rfl⟩
        exact ⟨rfl, rfl⟩

theorem callsFor_append {links links' : List H256} {values values' : List Bytes} :
    CallsFor account (links ++ links') (values ++ values') x ↔
      CallsFor account links values x ∨ CallsFor account links' values' x := by
  constructor
  · rintro (⟨hlink, hflag⟩ | ⟨hacc, hflag, v, hv, hroot⟩)
    · rcases mem_append.mp hlink with hlink | hlink
      · exact .inl (.inl ⟨hlink, hflag⟩)
      · exact .inr (.inl ⟨hlink, hflag⟩)
    rcases mem_append.mp hv with hv | hv
    · exact .inl (.inr ⟨hacc, hflag, v, hv, hroot⟩)
    · exact .inr (.inr ⟨hacc, hflag, v, hv, hroot⟩)
  rintro ((⟨hlink, hflag⟩ | ⟨hacc, hflag, v, hv, hroot⟩) |
    (⟨hlink, hflag⟩ | ⟨hacc, hflag, v, hv, hroot⟩))
  · exact .inl ⟨mem_append_left _ hlink, hflag⟩
  · exact .inr ⟨hacc, hflag, v, mem_append_left _ hv, hroot⟩
  · exact .inl ⟨mem_append_right _ hlink, hflag⟩
  · exact .inr ⟨hacc, hflag, v, mem_append_right _ hv, hroot⟩

theorem callsFor_flatMap {ι : Type} {l : List ι} {links : ι → List H256} {values : ι → List Bytes} :
    CallsFor account (l.flatMap links) (l.flatMap values) x ↔
      ∃ i ∈ l, CallsFor account (links i) (values i) x := by
  induction l with
  | nil => simp [CallsFor]
  | cons i l ih =>
    rw [flatMap_cons, flatMap_cons, callsFor_append, ih]
    simp

theorem callsFor_value : CallsFor account [] [v] x ↔ x ∈ storageCall account v := by
  rw [mem_storageCall]
  simp [CallsFor]

mutual

theorem mem_nodeCalls (account : Bool) (x : WalkCall) : ∀ node : TrieNode,
    x ∈ nodeCalls account node ↔ CallsFor account (nodeLinks node) (nodeValues node) x
  | .empty => by simp [nodeCalls, nodeLinks, nodeValues, CallsFor]
  | .leaf _ value => by
    rw [nodeCalls, nodeLinks, nodeValues, callsFor_value]
  | .extension _ child => by
    rw [nodeCalls, nodeLinks, nodeValues]
    exact mem_descend account x child
  | .branch children value => by
    have hchildren : ∀ i, x ∈ descend account (children i) ↔
        CallsFor account (refLinks (children i)) (refValues (children i)) x :=
      fun i => mem_descend account x (children i)
    have hvalue : x ∈ value.elim [] (storageCall account) ↔ CallsFor account [] value.toList x := by
      cases value with
      | none => simp [CallsFor]
      | some v => exact callsFor_value.symm
    rw [nodeCalls, nodeLinks, nodeValues, mem_append, mem_flatMap, hvalue,
      ← append_nil ((finRange 16).flatMap fun i => refLinks (children i)),
      callsFor_append, callsFor_flatMap]
    simp only [hchildren]

theorem mem_descend (account : Bool) (x : WalkCall) : ∀ ref : NodeRef,
    x ∈ descend account ref ↔ CallsFor account (refLinks ref) (refValues ref) x
  | .hash h => by
    obtain ⟨h', flag⟩ := x
    simp [descend, refLinks, refValues, CallsFor]
  | .inline node => by
    rw [descend, refLinks, refValues]
    exact mem_nodeCalls account x node
  | .empty => by simp [descend, refLinks, refValues, CallsFor]

end

/-! ## Reachability -/

def nodeAt (U : H256 → Option Bytes) (h : H256) : Option TrieNode :=
  (U h).bind fun bytes => (TrieNode.decode bytes).toOption

/-- A hash is reached as one of an account trie (`true`) or of a storage trie. The zero hash stands
for no trie at all. -/
inductive Reaches (U : H256 → Option Bytes) (roots : List Retained) : Bool → H256 → Prop
  | root {c : Retained} (hc : c ∈ roots) (hne : c.stateRoot ≠ 0) : Reaches U roots true c.stateRoot
  | link {account : Bool} {h h' : H256} {node : TrieNode} (hreach : Reaches U roots account h)
      (hnode : nodeAt U h = some node) (hlink : h' ∈ nodeLinks node) (hne : h' ≠ 0) :
      Reaches U roots account h'
  | storage {h r : H256} {node : TrieNode} {state : AccountState} (hreach : Reaches U roots true h)
      (hnode : nodeAt U h = some node) (hvalue : encodeAccountRlp state r ∈ nodeValues node)
      (hne : r ≠ 0) : Reaches U roots false r

def Reachable (U : H256 → Option Bytes) (roots : List Retained) (h : H256) : Prop :=
  ∃ account, Reaches U roots account h

theorem Reaches.mono {h : H256} (hreach : Reaches U roots account h) (hsub : roots ⊆ roots') :
    Reaches U roots' account h := by
  induction hreach with
  | root hc hne => exact .root (hsub hc) hne
  | link _ hnode hlink hne ih => exact .link ih hnode hlink hne
  | storage _ hnode hvalue hne ih => exact .storage ih hnode hvalue hne

/-- A value as the state code writes it: an account record, or the RLP string of a slot. -/
def WrittenValue (account : Bool) (v : Bytes) : Prop :=
  if account then ∃ state r, v = encodeAccountRlp state r else ∃ d, v = RlpStream.stringItem d

/-- The nodes that the roots reach, as far as they are there, were written by the state code. -/
def Written (U : H256 → Option Bytes) (roots : List Retained) : Prop :=
  ∀ account h bytes, Reaches U roots account h → U h = some bytes →
    ∃ node, TrieNode.decode bytes = .ok node ∧ ∀ v ∈ nodeValues node, WrittenValue account v

theorem Written.mono (h : Written U roots') (hsub : roots ⊆ roots') : Written U roots :=
  fun account hash bytes hreach hU => h account hash bytes (hreach.mono hsub) hU

theorem accountStorageRoot_account (state : AccountState) (r : H256) :
    accountStorageRoot (encodeAccountRlp state r) = some r := by
  have hlist : Rlp.isList (encodeAccountRlp state r) = true := by
    rw [encodeAccountRlp_eq]
    exact Rlp.isList_listItem _
  have hcount : ¬ ((accountItems state r).length ≠ 4 ∧ (accountItems state r).length ≠ 5) := by
    rw [length_accountItems]
    split
    · decide
    · decide
  unfold accountStorageRoot
  rw [hlist, itemCount_encodeAccountRlp, valAt_encodeAccountRlp]
  dsimp only
  rw [if_neg (by decide), if_neg hcount, if_neg (by simp), H256.ofBytes_toBytes]

theorem accountStorageRoot_string (d : Bytes) :
    accountStorageRoot (RlpStream.stringItem d) = none := by
  unfold accountStorageRoot
  rw [if_pos (Rlp.isList_stringItem d)]

/-! ## The graph of the mark -/

def callsOf (U : H256 → Option Bytes) (x : WalkCall) : List WalkCall :=
  match nodeAt U x.1 with
  | some node => nodeCalls x.2 node
  | none => []

def IsZero (x : WalkCall) : Prop := x.1 = 0

def rootCalls (roots : List Retained) : List WalkCall := roots.map fun c => (c.stateRoot, true)

abbrev MarkReach (U : H256 → Option Bytes) (roots : List Retained) : WalkCall → Prop :=
  Marking.Reach IsZero (callsOf U) (rootCalls roots)

variable {U : H256 → Option Bytes} {roots : List Retained} {live : List H256} {x y : WalkCall}

theorem exists_node_of_callsOf (hy : y ∈ callsOf U x) :
    ∃ node bytes, U x.1 = some bytes ∧ TrieNode.decode bytes = .ok node ∧
      nodeAt U x.1 = some node ∧ CallsFor x.2 (nodeLinks node) (nodeValues node) y := by
  unfold callsOf at hy
  split at hy
  · next node hnode =>
    obtain ⟨bytes, hbytes, hdecode⟩ := bind_eq_some_iff.mp hnode
    cases hdec : TrieNode.decode bytes with
    | error e =>
      rw [hdec] at hdecode
      cases hdecode
    | ok node' =>
      rw [hdec] at hdecode
      cases hdecode
      exact ⟨node, bytes, hbytes, hdec, hnode, (mem_nodeCalls x.2 y node).mp hy⟩
  · cases hy

theorem callsOf_of_node {node : TrieNode} (hnode : nodeAt U x.1 = some node)
    (hy : CallsFor x.2 (nodeLinks node) (nodeValues node) y) : y ∈ callsOf U x := by
  unfold callsOf
  rw [hnode]
  exact (mem_nodeCalls x.2 y node).mpr hy

theorem reaches_of_mark (hwritten : Written U roots) (h : MarkReach U roots x) :
    Reaches U roots x.2 x.1 := by
  induction h with
  | root hx hskip =>
    obtain ⟨c, hc, rfl⟩ := mem_map.mp hx
    exact .root hc hskip
  | @step x y _ hy hskip ih =>
    obtain ⟨node, bytes, hbytes, hdecode, hnode, hcalls⟩ := exists_node_of_callsOf hy
    obtain ⟨hlink, hflag⟩ | ⟨hacc, hflag, v, hv, hroot⟩ := hcalls
    · rw [hflag]
      exact .link ih hnode hlink hskip
    rw [hacc] at ih
    obtain ⟨node', hdecode', hvalues⟩ := hwritten true x.1 bytes ih hbytes
    obtain rfl : node = node' := Except.ok.inj (hdecode.symm.trans hdecode')
    obtain ⟨state, r, rfl⟩ := hvalues v hv
    rw [accountStorageRoot_account] at hroot
    rw [hflag]
    cases hroot
    exact .storage ih hnode hv hskip

theorem mark_of_reaches {account : Bool} {h : H256} (hreach : Reaches U roots account h) :
    MarkReach U roots (h, account) := by
  induction hreach with
  | @root c hc hne => exact .root (mem_map.mpr ⟨c, hc, rfl⟩) hne
  | link _ hnode hlink hne ih =>
    exact .step ih (callsOf_of_node hnode (.inl ⟨hlink, rfl⟩)) hne
  | storage _ hnode hvalue hne ih =>
    exact .step ih (callsOf_of_node hnode
      (.inr ⟨rfl, rfl, _, hvalue, accountStorageRoot_account _ _⟩)) hne

theorem callsOf_alike (hwritten : Written U roots) {x' : WalkCall} (hx' : MarkReach U roots x')
    (hkey : x.1 = x'.1) (hy : y ∈ callsOf U x) (hskip : ¬ IsZero y) :
    ∃ y' ∈ callsOf U x', ¬ IsZero y' ∧ y'.1 = y.1 := by
  obtain ⟨node, bytes, hbytes, hdecode, hnode, hcalls⟩ := exists_node_of_callsOf hy
  rw [hkey] at hbytes hnode
  obtain ⟨hlink, -⟩ | ⟨hacc, hflag, v, hv, hroot⟩ := hcalls
  · exact ⟨(y.1, x'.2), callsOf_of_node hnode (.inl ⟨hlink, rfl⟩), hskip, rfl⟩
  cases hkind : x'.2 with
  | true =>
    refine ⟨y, callsOf_of_node hnode (.inr ⟨hkind, hflag, v, hv, hroot⟩), hskip, rfl⟩
  | false =>
    -- a value of a storage trie is no record
    have hreach := reaches_of_mark hwritten hx'
    rw [hkind] at hreach
    obtain ⟨node', hdecode', hvalues⟩ := hwritten false x'.1 bytes hreach hbytes
    obtain rfl : node = node' := Except.ok.inj (hdecode.symm.trans hdecode')
    obtain ⟨d, rfl⟩ := hvalues v hv
    rw [accountStorageRoot_string] at hroot
    cases hroot

/-- A mark in progress: what is on the stack and what has been visited, all of it stored. -/
structure MarkInv (U : H256 → Option Bytes) (roots : List Retained) (todo : List WalkCall)
    (live : List H256) : Prop where
  progress : Marking.Progress Prod.fst IsZero (callsOf U) (rootCalls roots) todo live
  stored : ∀ h ∈ live, (U h).isSome

variable (U roots) in
theorem MarkInv.start : MarkInv U roots (rootCalls roots) [] :=
  ⟨.start _, nofun⟩

theorem mark_exact (hwritten : Written U roots) (h : MarkInv U roots [] live) (hash : H256) :
    hash ∈ live ↔ Reachable U roots hash := by
  rw [h.progress.mem_live_iff fun x x' _ hx' hkey y hy hskip =>
    callsOf_alike hwritten hx' hkey hy hskip]
  constructor
  · rintro ⟨x, hx, rfl⟩
    exact ⟨x.2, reaches_of_mark hwritten hx⟩
  · rintro ⟨account, hreach⟩
    exact ⟨(hash, account), mark_of_reaches hreach, rfl⟩

theorem walkStep_cases {db : ZbxDb}
    (hdb : ∀ h bytes, db.getTrieNode h = some bytes → U h = some bytes) (hwritten : Written U roots)
    {call : WalkCall} {todo : List WalkCall} (h : MarkInv U roots (call :: todo) live) :
    walkStep db roots call todo live = .marking roots todo live ∧ MarkInv U roots todo live ∨
    (∃ node, walkStep db roots call todo live =
        .marking roots (nodeCalls call.2 node ++ todo) (call.1 :: live) ∧
      MarkInv U roots (nodeCalls call.2 node ++ todo) (call.1 :: live) ∧ call.1 ∉ live ∧
      (db.getTrieNode call.1).isSome) ∨ walkStep db roots call todo live = .finished .abort ∧
      Reachable U roots call.1 ∧ db.getTrieNode call.1 = none := by
  unfold walkStep
  by_cases hreturn : call.1 = 0 ∨ live.contains call.1
  · rw [if_pos hreturn]
    have hdone : IsZero call ∨ call.1 ∈ live := hreturn.imp id contains_iff_mem.mp
    exact .inl ⟨rfl, h.progress.drop hdone, h.stored⟩
  rw [if_neg hreturn]
  have hskip : ¬ IsZero call := fun hzero => hreturn (.inl hzero)
  have hnew : call.1 ∉ live := fun hmem => hreturn (.inr (contains_iff_mem.mpr hmem))
  have hmark : MarkReach U roots call :=
    (h.progress.pending call mem_cons_self).resolve_left hskip
  have hreach := reaches_of_mark hwritten hmark
  unfold loadNode
  cases hget : db.getTrieNode call.1 with
  | none => exact .inr (.inr ⟨rfl, ⟨_, hreach⟩, rfl⟩)
  | some bytes =>
    obtain ⟨node, hdecode, -⟩ := hwritten call.2 call.1 bytes hreach (hdb _ _ hget)
    have hcalls : callsOf U call = nodeCalls call.2 node := by
      unfold callsOf nodeAt
      rw [hdb _ _ hget, bind_some, hdecode]
      rfl
    have hvisit := h.progress.visit hskip
    rw [hcalls] at hvisit
    dsimp only
    rw [hdecode]
    refine .inr (.inl ⟨node, rfl, ⟨hvisit, ?_⟩, hnew, rfl⟩)
    intro hash hmem
    rcases mem_cons.mp hmem with rfl | hmem
    · rw [hdb _ _ hget]
      rfl
    · exact h.stored hash hmem

end Pruner

end ZbxChain
