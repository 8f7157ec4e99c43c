import ZbxChain.Lib.Radix
import ZbxChain.Crypto.Keccak
import ZbxChain.Rlp.Items

/-!
# Nibble paths

`zbx-trie/src/nibbles.rs`. The source keeps a vector and an offset into it; the
model is the list of nibbles from the offset on, so `slice` is `List.drop` and
`sub` is `drop` followed by `take`.
-/

namespace ZbxChain

open List

abbrev Nibble := Fin 16

abbrev Nibbles := List Nibble

namespace Nibbles

def highNibble (b : UInt8) : Nibble := ⟨b.toNat / 16, by have := b.toNat_lt; omega⟩

def lowNibble (b : UInt8) : Nibble := ⟨b.toNat % 16, by omega⟩

def fromBytes : Bytes → Nibbles
  | [] => []
  | b :: bytes => highNibble b :: lowNibble b :: fromBytes bytes

def commonPrefixLen (a b : Nibbles) : Nat := (Radix.commonPrefix a b).length

def packPairs : Nibbles → Bytes
  | a :: b :: rest => UInt8.ofNat (a.val * 16 + b.val) :: packPairs rest
  | _ => []

def compactFlag (leaf odd : Bool) : Nat :=
  (if leaf then 0x20 else 0x00) + (if odd then 0x10 else 0x00)

variable (path : Nibbles) (leaf : Bool)

/-- Hex-prefix encoding. The first byte holds the leaf and parity flags and, for an
odd number of nibbles, the first nibble. -/
def encodeCompact : Bytes :=
  if path.length % 2 = 1 then
    match path with
    | [] => []
    | a :: rest => UInt8.ofNat (compactFlag leaf true + a.val) :: packPairs rest
  else UInt8.ofNat (compactFlag leaf false) :: packPairs path

/-- `none` is the source's panic on an empty string. -/
def decodeCompact (encoded : Bytes) : Option (Nibbles × Bool) :=
  match encoded with
  | [] => none
  | flag :: rest =>
    let leaf := flag.toNat / 32 % 2 == 1
    let odd := flag.toNat / 16 % 2 == 1
    some ((if odd then [lowNibble flag] else []) ++ fromBytes rest, leaf)

theorem length_fromBytes (b : Bytes) : (fromBytes b).length = 2 * b.length := by
  induction b with
  | nil => rfl
  | cons x b ih =>
    simp only [fromBytes, length_cons, ih]
    omega

theorem fromBytes_injective : Function.Injective fromBytes := by
  intro a
  induction a with
  | nil =>
    intro b h
    cases b with
    | nil => rfl
    | cons y b => simp [fromBytes] at h
  | cons x a ih =>
    intro b h
    cases b with
    | nil => simp [fromBytes] at h
    | cons y b =>
      simp only [fromBytes, cons.injEq, highNibble, lowNibble, Fin.mk.injEq] at h
      obtain ⟨hhigh, hlow, hrest⟩ := h
      have hxy : x = y := UInt8.toNat_inj.mp (by omega)
      rw [hxy, ih hrest]

/-! ## Hex-prefix form -/

theorem fromBytes_packPairs {path : Nibbles} (h : path.length % 2 = 0) :
    fromBytes (packPairs path) = path := by
  induction path using packPairs.induct with
  | case1 a b rest ih =>
    have hbyte : (UInt8.ofNat (a.val * 16 + b.val)).toNat = a.val * 16 + b.val := by
      rw [UInt8.toNat_ofNat', Nat.mod_eq_of_lt (by omega)]
    have hhigh : highNibble (UInt8.ofNat (a.val * 16 + b.val)) = a := by
      apply Fin.ext
      simp only [highNibble, hbyte]
      omega
    have hlow : lowNibble (UInt8.ofNat (a.val * 16 + b.val)) = b := by
      apply Fin.ext
      simp only [lowNibble, hbyte]
      omega
    have hrest : rest.length % 2 = 0 := by
      simp only [length_cons] at h
      omega
    rw [packPairs, fromBytes, hhigh, hlow, ih hrest]
  | case2 path hshort =>
    cases path with
    | nil => rfl
    | cons a path =>
      cases path with
      | nil => simp at h
      | cons b path => exact absurd rfl (hshort a b path)

theorem length_packPairs : (packPairs path).length = path.length / 2 := by
  induction path using packPairs.induct with
  | case1 a b rest ih =>
    simp only [packPairs, length_cons, ih]
    omega
  | case2 path hshort =>
    cases path with
    | nil => rfl
    | cons a path =>
      cases path with
      | nil => simp [packPairs]
      | cons b path => exact absurd rfl (hshort a b path)

theorem length_encodeCompact : (encodeCompact path leaf).length = path.length / 2 + 1 := by
  unfold encodeCompact
  split
  · cases path with
    | nil => contradiction
    | cons a rest =>
      simp only [length_cons, length_packPairs] at *
      omega
  · simp only [length_cons, length_packPairs]

theorem decodeCompact_encodeCompact :
    decodeCompact (encodeCompact path leaf) = some (path, leaf) := by
  unfold encodeCompact
  split
  · next hodd =>
    cases path with
    | nil => contradiction
    | cons a rest =>
      have hflag : ∀ (l : Bool) (a : Nibble),
          decodeCompact [UInt8.ofNat (compactFlag l true + a.val)] = some ([a], l) := by
        decide
      have hrest : fromBytes (packPairs rest) = rest := fromBytes_packPairs (by
        simp only [length_cons] at hodd
        omega)
      have hhead := hflag leaf a
      simp only [decodeCompact, fromBytes, append_nil, Option.some.injEq,
        Prod.mk.injEq] at hhead ⊢
      rw [hhead.1, hhead.2, hrest]
      exact ⟨rfl, rfl⟩
  · next heven =>
    have hflag : ∀ l : Bool, decodeCompact [UInt8.ofNat (compactFlag l false)] = some ([], l) := by
      decide
    have hhead := hflag leaf
    simp only [decodeCompact, fromBytes, append_nil, Option.some.injEq, Prod.mk.injEq]
      at hhead ⊢
    rw [hhead.1, hhead.2, fromBytes_packPairs (by omega)]
    exact ⟨rfl, rfl⟩

end Nibbles

/-!
## Trie nodes and their encoding

`TrieNode` and `NodeRef` of `zbx-trie/src/node.rs`.
-/

open RlpStream Nibbles

/-- The variants of `TrieError` that the modelled functions raise. -/
inductive TrieError
  | missingNode (h : H256)
  | rlpDecode (msg : String)
  | database (msg : String)
deriving DecidableEq, Repr

def hexEncode (bytes : Bytes) : String :=
  String.ofList (bytes.flatMap fun b => [Nat.digitChar (b.toNat / 16), Nat.digitChar (b.toNat % 16)])

def H256.debug (h : H256) : String := "0x" ++ hexEncode h.toBytes

def Address.toChecksum (a : Address) : String :=
  let hex := (hexEncode a.toBytes).toList
  let hash := (hexEncode (keccak256 (hex.map fun c => UInt8.ofNat c.toNat)).toBytes).toList
  "0x" ++ String.ofList (List.zipWith
    (fun c h => if c.isAlpha && '8' ≤ h then c.toUpper else c) hex hash)

def Address.debug (a : Address) : String := "Address(" ++ a.toChecksum ++ ")"

def TrieError.display : TrieError → String
  | .missingNode h => "node not found in database: 0x" ++ hexEncode h.toBytes
  | .rlpDecode msg => "RLP decode error: " ++ msg
  | .database msg => "database error: " ++ msg

abbrev TrieResult := Except (Fault TrieError)

mutual

inductive TrieNode
  | empty
  | leaf (path : Nibbles) (value : Bytes)
  | extension (path : Nibbles) (child : NodeRef)
  | branch (children : Nibble → NodeRef) (value : Option Bytes)

inductive NodeRef
  | hash (h : H256)
  | inline (n : TrieNode)
  | empty

end

mutual

def TrieNode.encode : TrieNode → Bytes
  | .empty => [0x80]
  | .leaf path value =>
    (((newList 2).append (encodeCompact path true)).append value).out
  | .extension path child =>
    (((newList 2).append (encodeCompact path false)).appendRaw child.item).out
  | .branch children value =>
    (((List.finRange 16).foldl (fun s i => s.appendRaw (children i).item)
      (newList 17)).append (value.getD [])).out

def NodeRef.item : NodeRef → Bytes
  | .hash h => stringItem h.toBytes
  | .inline n => n.encode
  | .empty => stringItem []

end

namespace TrieNode

/-- `map_err(|e| TrieError::RlpDecode(e.to_string()))`. -/
def liftRlp {α : Type} : RlpResult α → TrieResult α
  | .ok a => .ok a
  | .error (.err e) => .error (.err (.rlpDecode e.display))
  | .error .panic => .error .panic

def decodeChild (decode : Bytes → TrieResult TrieNode) (slot : String) (raw : Bytes) :
    TrieResult NodeRef := do
  if Rlp.isList raw then
    let n ← decode raw
    return .inline n
  let bytes ← liftRlp (Rlp.asBytes raw)
  if bytes = [] then return .empty
  if bytes.length = 32 then return .hash (H256.ofBytes bytes)
  throw (.err (.rlpDecode (slot ++ " has unexpected string length " ++ toString bytes.length)))

def decodeTwo (decode : Bytes → TrieResult TrieNode) (bytes : Bytes) : TrieResult TrieNode := do
  let pathBytes ← liftRlp (Rlp.valAt bytes 0)
  match decodeCompact pathBytes with
  | none => throw .panic
  | some (path, true) =>
    let value ← liftRlp (Rlp.valAt bytes 1)
    return .leaf path value
  | some (path, false) =>
    let raw ← liftRlp (Rlp.itemAt bytes 1)
    let child ← decodeChild decode "extension child" raw
    return .extension path child

def decodeSlot (decode : Bytes → TrieResult TrieNode) (bytes : Bytes) (i : Nibble) :
    TrieResult NodeRef := do
  let raw ← liftRlp (Rlp.itemAt bytes i)
  decodeChild decode ("branch slot " ++ toString i.val) raw

def decodeSeventeen (decode : Bytes → TrieResult TrieNode) (bytes : Bytes) :
    TrieResult TrieNode := do
  let children ← (List.finRange 16).mapM (decodeSlot decode bytes)
  let valBytes ← liftRlp (Rlp.valAt bytes 16)
  return .branch (fun i => children.getD i .empty) (if valBytes = [] then none else some valBytes)

def decodeFuel : Nat → Bytes → TrieResult TrieNode
  | 0, _ => .error .panic
  | fuel + 1, bytes => do
    let count ← liftRlp (Rlp.itemCount bytes)
    match count with
    | 0 => return .empty
    | 2 => decodeTwo (decodeFuel fuel) bytes
    | 17 => decodeSeventeen (decodeFuel fuel) bytes
    | count => throw (.err (.rlpDecode ("unexpected item count: " ++ toString count)))

def decode (bytes : Bytes) : TrieResult TrieNode := decodeFuel (bytes.length + 1) bytes

/-! ## Encodings as lists of items -/

theorem encode_leaf (path : Nibbles) (value : Bytes) : (leaf path value).encode =
      listItem [stringItem (encodeCompact path true), stringItem value].flatten := by
  rw [encode, append_eq_appendRaw, append_eq_appendRaw,
    ← out_newList 2]
  simp [appendRaw]

theorem encode_extension (path : Nibbles) (child : NodeRef) : (extension path child).encode =
      listItem [stringItem (encodeCompact path false), child.item].flatten := by
  rw [encode, append_eq_appendRaw, ← out_newList 2]
  simp [appendRaw]

theorem encode_branch (children : Nibble → NodeRef) (value : Option Bytes) :
    (branch children value).encode =
      listItem ((List.finRange 16).map (fun i => (children i).item) ++
        [stringItem (value.getD [])]).flatten := by
  have hfold := foldl_appendRaw ((List.finRange 16).map fun i => (children i).item)
    (newList 17)
  rw [List.foldl_map] at hfold
  rw [encode, hfold, append_eq_appendRaw, ← out_newList 17]
  simp [appendRaw]

end TrieNode

end ZbxChain
