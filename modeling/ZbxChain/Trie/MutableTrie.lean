import ZbxChain.Trie.Node

/-!
# The mutable Merkle Patricia trie

`MutableTrie` of `zbx-trie/src/trie.rs` over an arbitrary `TrieDB`. The methods that take `&mut
self` are state-passing computations that keep the state also when they fail.
-/

namespace ZbxChain

open Nibbles Function

class TrieDB (DB : Type) where
  get : DB → H256 → Except TrieError (Option Bytes)
  insert : DB → H256 → Bytes → Except TrieError DB

structure MemoryTrieDB where
  store : List (H256 × Bytes) := []

instance : TrieDB MemoryTrieDB where
  get db h := .ok (db.store.lookup h)
  insert db h value := .ok ⟨(h, value) :: db.store⟩

structure MutableTrie (DB : Type) where
  root : H256
  db : DB
  cache : List (H256 × Bytes)

abbrev TrieM (DB : Type) := EStateM (Fault TrieError) (MutableTrie DB)

namespace MutableTrie

variable {DB : Type}

def new (db : DB) : MutableTrie DB := ⟨emptyRoot, db, []⟩

def fromRoot (root : H256) (db : DB) : MutableTrie DB := ⟨root, db, []⟩

def cacheNode (t : MutableTrie DB) (encoded : Bytes) : MutableTrie DB :=
  { t with cache := (keccak256 encoded, encoded) :: t.cache }

def storeNode (node : TrieNode) : TrieM DB NodeRef := do
  let encoded := node.encode
  if encoded.length < 32 then return .inline node
  modify (·.cacheNode encoded)
  return .hash (keccak256 encoded)

def commitRoot (node : TrieNode) : TrieM DB H256 :=
  match node with
  | .empty => return emptyRoot
  | node => do
    let encoded := node.encode
    modify (·.cacheNode encoded)
    return keccak256 encoded

section

variable [TrieDB DB]

/-- The bytes stored under a hash: the cache first, then the database, whose errors
count as absence. -/
def nodeBytes (t : MutableTrie DB) (h : H256) : Option Bytes :=
  match t.cache.lookup h with
  | some bytes => some bytes
  | none =>
    match TrieDB.get t.db h with
    | .ok bytes => bytes
    | .error _ => none

def resolve (t : MutableTrie DB) (r : NodeRef) : TrieResult TrieNode :=
  match r with
  | .empty => .ok .empty
  | .inline n => .ok n
  | .hash h =>
    if h = emptyRoot then .ok .empty
    else
      match t.nodeBytes h with
      | none => .error (.err (.missingNode h))
      | some bytes => TrieNode.decode bytes

def getNode (t : MutableTrie DB) : Nat → NodeRef → Nibbles → Nat → TrieResult (Option Bytes)
  | 0, _, _, _ => .error .panic
  | fuel + 1, r, key, depth => do
    let node ← t.resolve r
    match node with
    | .empty => return none
    | .leaf path value =>
      let keyRemaining := key.drop depth
      if commonPrefixLen keyRemaining path = path.length ∧
          path.length = keyRemaining.length then
        return some value
      else return none
    | .extension path child =>
      let cp := commonPrefixLen (key.drop depth) path
      if cp < path.length then return none
      else t.getNode fuel child key (depth + cp)
    | .branch children value =>
      if depth = key.length then return value
      match key[depth]? with
      | none => throw .panic
      | some idx => t.getNode fuel (children idx) key (depth + 1)

def get (t : MutableTrie DB) (key : Bytes) : TrieResult (Option Bytes) :=
  if t.root = emptyRoot then .ok none
  else
    let nibbles := fromBytes key
    t.getNode (nibbles.length + 1) (.hash t.root) nibbles 0

/-- `resolve` as a step of a method that takes `&mut self`. -/
def resolveM (r : NodeRef) : TrieM DB TrieNode := fun t =>
  match t.resolve r with
  | .ok node => .ok node t
  | .error e => .error e t

end

abbrev NodeFan := (Nibble → NodeRef) × Option Bytes

def placeLeaf (fan : NodeFan) (rest : Nibbles) (value : Bytes) : TrieM DB NodeFan :=
  match rest with
  | [] => return (fan.1, some value)
  | nibble :: rest => do
    let r ← storeNode (.leaf rest value)
    return (update fan.1 nibble r, fan.2)

def wrapBranch (path : Nibbles) (fan : NodeFan) : TrieM DB TrieNode :=
  match path with
  | [] => return .branch fan.1 fan.2
  | path => do
    let r ← storeNode (.branch fan.1 fan.2)
    return .extension path r

def insertAtLeaf (path : Nibbles) (oldVal : Bytes) (keyRemaining : Nibbles) (value : Bytes) :
    TrieM DB TrieNode := do
  let cp := commonPrefixLen keyRemaining path
  if cp = path.length ∧ cp = keyRemaining.length then return .leaf path value
  let fan ← placeLeaf (fun _ => .empty, none) (path.drop cp) oldVal
  let fan ← placeLeaf fan (keyRemaining.drop cp) value
  wrapBranch (keyRemaining.take cp) fan

def extensionRest (path : Nibbles) (child : NodeRef) : TrieM DB NodeRef :=
  match path with
  | [] => return child
  | path => storeNode (.extension path child)

def splitExtension (path : Nibbles) (child : NodeRef) (keyRemaining : Nibbles) (value : Bytes) :
    TrieM DB TrieNode := do
  let cp := commonPrefixLen keyRemaining path
  match path.drop cp with
  | [] => throw .panic
  | nibble :: rest =>
    let r ← extensionRest rest child
    let fan ← placeLeaf (update (fun _ => .empty) nibble r, none)
      (keyRemaining.drop cp) value
    wrapBranch (keyRemaining.take cp) fan

variable [TrieDB DB]

def insertNode : Nat → TrieNode → Nibbles → Nat → Bytes → TrieM DB TrieNode
  | 0, _, _, _, _ => throw .panic
  | fuel + 1, node, key, depth, value =>
    let keyRemaining := key.drop depth
    match node with
    | .empty => return .leaf keyRemaining value
    | .leaf path oldVal => insertAtLeaf path oldVal keyRemaining value
    | .extension path child =>
      let cp := commonPrefixLen keyRemaining path
      if cp = path.length then do
        let childNode ← resolveM child
        let newChild ← insertNode fuel childNode key (depth + cp) value
        let r ← storeNode newChild
        return .extension path r
      else splitExtension path child keyRemaining value
    | .branch children branchVal =>
      if depth = key.length then return .branch children (some value)
      else
        match key[depth]? with
        | none => throw .panic
        | some idx => do
          let childNode ← resolveM (children idx)
          let newChild ← insertNode fuel childNode key (depth + 1) value
          let r ← storeNode newChild
          return .branch (update children idx r) branchVal

def rootNode : TrieM DB TrieNode := fun t =>
  if t.root = emptyRoot then .ok .empty t else resolveM (.hash t.root) t

def setRoot (h : H256) : TrieM DB Unit := modify fun t => { t with root := h }

def insert (key value : Bytes) : TrieM DB Unit := do
  let nibbles := fromBytes key
  let oldRoot ← rootNode
  let newRootNode ← insertNode (nibbles.length + 1) oldRoot nibbles 0 value
  let h ← commitRoot newRootNode
  setRoot h

def mergePath (path : Nibbles) (node : TrieNode) : TrieM DB TrieNode :=
  match node with
  | .empty => return .empty
  | .leaf rest value => return .leaf (path ++ rest) value
  | .extension rest child => return .extension (path ++ rest) child
  | .branch children value => do
    let r ← storeNode (.branch children value)
    return .extension path r

/-- Whether a child slot is taken: `!matches!(r, NodeRef::Empty)`. -/
def occupied (r : NodeRef) : Bool :=
  match r with
  | .empty => false
  | _ => true

def maybeCollapseBranch (children : Nibble → NodeRef) (value : Option Bytes) :
    TrieM DB TrieNode :=
  match (List.finRange 16).filter (fun i => occupied (children i)), value with
  | [], none => return .empty
  | [], some v => return .leaf [] v
  | [idx], none => do
    let childNode ← resolveM (children idx)
    mergePath [idx] childNode
  | _, value => return .branch children value

def storeChild (node : TrieNode) : TrieM DB NodeRef :=
  match node with
  | .empty => return .empty
  | other => storeNode other

def deleteNode : Nat → TrieNode → Nibbles → Nat → TrieM DB (TrieNode × Bool)
  | 0, _, _, _ => throw .panic
  | fuel + 1, node, key, depth =>
    let keyRemaining := key.drop depth
    match node with
    | .empty => return (.empty, false)
    | .leaf path value =>
      if keyRemaining.length = path.length ∧
          commonPrefixLen keyRemaining path = path.length then
        return (.empty, true)
      else return (.leaf path value, false)
    | .extension path child =>
      if commonPrefixLen keyRemaining path = path.length then do
        let childNode ← resolveM child
        let (newChild, removed) ← deleteNode fuel childNode key (depth + path.length)
        if removed then
          let collapsed ← mergePath path newChild
          return (collapsed, true)
        else return (.extension path child, false)
      else return (.extension path child, false)
    | .branch children branchVal =>
      if depth = key.length then
        if branchVal.isSome then do
          let collapsed ← maybeCollapseBranch children none
          return (collapsed, true)
        else return (.branch children none, false)
      else
        match key[depth]? with
        | none => throw .panic
        | some idx => do
          let childNode ← resolveM (children idx)
          let (newChild, removed) ← deleteNode fuel childNode key (depth + 1)
          if removed then
            let r ← storeChild newChild
            let collapsed ← maybeCollapseBranch (update children idx r) branchVal
            return (collapsed, true)
          else return (.branch children branchVal, false)

/-- `true` iff the key existed. -/
def delete (key : Bytes) : TrieM DB Bool := fun t =>
  if t.root = emptyRoot then .ok false t
  else
    let nibbles := fromBytes key
    (do
      let oldRoot ← resolveM (.hash t.root)
      let (newRootNode, removed) ← deleteNode (nibbles.length + 1) oldRoot nibbles 0
      if removed then
        let h ← commitRoot newRootNode
        setRoot h
        return true
      else return false : TrieM DB Bool) t

def drainInto (db : DB) : List (H256 × Bytes) → DB × Option TrieError
  | [] => (db, none)
  | (h, bytes) :: rest =>
    match TrieDB.insert db h bytes with
    | .ok db => drainInto db rest
    | .error e => (db, some e)

def commit : TrieM DB H256 := fun t =>
  match drainInto t.db t.cache.reverse with
  | (db, none) => .ok t.root { t with db := db, cache := [] }
  | (db, some e) => .error (.err e) { t with db := db, cache := [] }

end MutableTrie

end ZbxChain
