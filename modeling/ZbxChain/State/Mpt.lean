import ZbxChain.Storage.Db
import ZbxChain.Trie.MutableTrie

/-!
# State roots

The root computations of `zbx-state/src/mpt.rs` over a persistent database.
-/

namespace ZbxChain

open MutableTrie

namespace Mpt

/-- `strip_leading_zeros` of the big-endian bytes of a word. -/
def stripLeadingZeros (b : Bytes) : Bytes := trimZeros b

def u64MinBe (n : UInt64) : Bytes :=
  if n = 0 then [] else trimZeros (beBytes 8 n.toNat)

/-- The account leaf; a ZVM account has a fifth element. -/
def encodeAccountRlp (state : AccountState) (storageRoot : H256) : Bytes :=
  let zvm := state.vm = .zvm
  let s := RlpStream.new.beginList (if zvm then 5 else 4)
  let s := s.append (u64MinBe state.nonce)
  let s := s.append (stripLeadingZeros (H256.toBytes state.balance))
  let s := s.append storageRoot.toBytes
  let s := s.append (H256.toBytes state.codeHash)
  let s := if zvm then s.append [1] else s
  s.out

def accountKey (addr : Address) : Bytes := (keccak256 addr.toBytes).toBytes

def slotKey (slot : H256) : Bytes := (keccak256 slot.toBytes).toBytes

def slotValue (value : H256) : Bytes :=
  (RlpStream.new.append (stripLeadingZeros value.toBytes)).out

variable {DB : Type} [TrieDB DB]

/-- One slot of `compute_storage_root_with_db`. The error `KeyNotFound` that the source
tolerates is never raised by `delete`. -/
def applySlot (slot value : H256) : TrieM DB Unit :=
  if value = 0 then do
    let _ ← delete (slotKey slot)
  else insert (slotKey slot) (slotValue value)

def applySlots : List ((_ : H256) × H256) → TrieM DB Unit
  | [] => pure ()
  | ⟨slot, value⟩ :: rest => do
    applySlot slot value
    applySlots rest

def storageTrieWithDb (slots : Map H256 H256) (prevRoot : H256) (db : DB) :
    EStateM.Result (Fault TrieError) (MutableTrie DB) Unit :=
  applySlots slots.entries (fromRoot prevRoot db)

def computeStorageRootWithDb (slots : Map H256 H256) (prevRoot : H256) (db : DB) :
    TrieResult H256 :=
  match storageTrieWithDb slots prevRoot db with
  | .ok _ trie => .ok (if trie.root = emptyRoot then emptyStorageRoot else trie.root)
  | .error e _ => .error e

def dirtySlots (storage : Map Address (Map H256 H256)) (addr : Address) : Option (Map H256 H256) :=
  match storage.lookup addr with
  | some slots => if slots.entries = [] then none else some slots
  | none => none

def leafStorageRoot (storage : Map Address (Map H256 H256)) (db : DB) (addr : Address)
    (state : AccountState) : TrieResult H256 :=
  match dirtySlots storage addr with
  | some slots => computeStorageRootWithDb slots state.storageRoot db
  | none => .ok state.storageRoot

/-- One account of `compute_state_root_with_db`. An empty account without dirty slots is
left out of the trie. -/
def applyAccount (storage : Map Address (Map H256 H256)) (db : DB) (addr : Address)
    (state : AccountState) : TrieM DB Unit :=
  if state.isEmpty ∧ (dirtySlots storage addr).isNone then pure ()
  else
    match leafStorageRoot storage db addr state with
    | .ok storageRoot =>
      insert (accountKey addr) (encodeAccountRlp state storageRoot)
    | .error e => throw e

def applyAccounts (storage : Map Address (Map H256 H256)) (db : DB) :
    List ((_ : Address) × AccountState) → TrieM DB Unit
  | [] => pure ()
  | ⟨addr, state⟩ :: rest => do
    applyAccount storage db addr state
    applyAccounts storage db rest

def stateTrieWithDb (accounts : Map Address AccountState) (storage : Map Address (Map H256 H256))
    (db : DB) : EStateM.Result (Fault TrieError) (MutableTrie DB) Unit :=
  applyAccounts storage db accounts.entries (new db)

def computeStateRootWithDb (accounts : Map Address AccountState)
    (storage : Map Address (Map H256 H256)) (db : DB) : TrieResult H256 :=
  match stateTrieWithDb accounts storage db with
  | .ok _ trie => .ok trie.root
  | .error e _ => .error e

end Mpt

/-!
## The trie database over the node's database

`ZbxDbTrieAdapter` of `zbx-state/src/trie_adapter.rs`: a list of pending writes in front of the
column of trie nodes.
-/

structure ZbxDbTrieAdapter where
  db : ZbxDb
  pending : List (H256 × Bytes)

namespace ZbxDbTrieAdapter

def autoFlushThreshold : Nat := 1024

def new (db : ZbxDb) : ZbxDbTrieAdapter := ⟨db, []⟩

def commit (a : ZbxDbTrieAdapter) : ZbxDbTrieAdapter :=
  if a.pending = [] then a else ⟨a.db.writeTrieNodes a.pending, []⟩

def get (a : ZbxDbTrieAdapter) (hash : H256) : Option Bytes :=
  match a.pending.lookup hash with
  | some value => some value
  | none => a.db.getTrieNode hash

def insert (a : ZbxDbTrieAdapter) (hash : H256) (value : Bytes) : ZbxDbTrieAdapter :=
  let a := { a with pending := a.pending ++ [(hash, value)] }
  if autoFlushThreshold ≤ a.pending.length then a.commit else a

instance : TrieDB ZbxDbTrieAdapter where
  get a hash := .ok (a.get hash)
  insert a hash value := .ok (a.insert hash value)

end ZbxDbTrieAdapter

end ZbxChain
