import ZbxChain.Types.Primitives

/-!
# RLP encoding

`RlpStream` of `zbx-rlp/src/encode.rs`: a buffer and a stack of the offsets at which lists were
opened. An open list holds a nine-byte placeholder that `closeList` replaces by the real header.
-/

namespace ZbxChain

def usizeBound : Nat := 2 ^ 64

structure RlpStream where
  buf : Bytes
  listStack : List Nat
deriving DecidableEq, Repr

namespace RlpStream

def new : RlpStream := ⟨[], []⟩

variable (s : RlpStream) (data : Bytes)

def beginList (_n : Nat) : RlpStream :=
  ⟨s.buf ++ List.replicate 9 0, s.buf.length :: s.listStack⟩

def newList (n : Nat) : RlpStream := new.beginList n

/-- The big-endian bytes of a `u64` without leading zeros. -/
def minimalBytes (n : Nat) : Bytes := trimZeros (beBytes 8 n)

/-- The bytes `encode_string` pushes for `data`. -/
def stringItem : Bytes :=
  match data with
  | [] => [0x80]
  | [b] => if b < 0x80 then [b] else [0x81, b]
  | _ =>
    if data.length ≤ 55 then UInt8.ofNat (0x80 + data.length) :: data
    else
      let lenBytes := minimalBytes data.length
      UInt8.ofNat (0xb7 + lenBytes.length) :: (lenBytes ++ data)

def encodeString : RlpStream :=
  { s with buf := s.buf ++ stringItem data }

def append : RlpStream := s.encodeString data

def appendRaw : RlpStream :=
  { s with buf := s.buf ++ data }

def listHeader (contentLen : Nat) : Bytes :=
  if contentLen ≤ 55 then [UInt8.ofNat (0xc0 + contentLen)]
  else
    let lenBytes := minimalBytes contentLen
    UInt8.ofNat (0xf7 + lenBytes.length) :: lenBytes

/-- Replace the placeholder at `start` by the header of what follows it. -/
def closeList (buf : Bytes) (start : Nat) : Bytes :=
  let content := buf.drop (start + 9)
  buf.take start ++ listHeader content.length ++ content

/-- Close the most recent list; `none` is the source's panic on an empty stack. -/
def finalizeUnboundedList : Option RlpStream :=
  match s.listStack with
  | [] => none
  | start :: rest => some ⟨closeList s.buf start, rest⟩

def out : Bytes :=
  s.listStack.foldl closeList s.buf

end RlpStream

def listItem (content : Bytes) : Bytes :=
  RlpStream.listHeader content.length ++ content

namespace RlpStream

variable (s : RlpStream) (d : Bytes)

@[simp] theorem appendRaw_buf : (s.appendRaw d).buf = s.buf ++ d := rfl

@[simp] theorem appendRaw_listStack : (s.appendRaw d).listStack = s.listStack := rfl

theorem append_eq_appendRaw : s.append d = s.appendRaw (stringItem d) := rfl

theorem foldl_appendRaw (items : List Bytes) (s : RlpStream) :
    items.foldl appendRaw s = s.appendRaw items.flatten := by
  induction items generalizing s with
  | nil => simp [appendRaw]
  | cons item items ih => simp [ih, appendRaw]

theorem out_newList (n : Nat) (content : Bytes) :
    ((newList n).appendRaw content).out = listItem content := by
  simp [newList, new, beginList, out, closeList, listItem]

/-! ## Minimal length bytes -/

theorem length_minimalBytes_le (n : Nat) : (minimalBytes n).length ≤ 8 := by
  simpa [minimalBytes] using length_trimZeros_le (beBytes 8 n)

theorem beNat_minimalBytes {n : Nat} (h : n < usizeBound) : beNat (minimalBytes n) = n := by
  rw [minimalBytes, beNat_trimZeros, beNat_beBytes_of_lt h]

theorem minimalBytes_ne_nil {n : Nat} (h : n < usizeBound) (h0 : n ≠ 0) : minimalBytes n ≠ [] := by
  apply trimZeros_ne_nil
  rwa [beNat_beBytes_of_lt h]

theorem minimalBytes_inj {m n : Nat} (hm : m < usizeBound) (hn : n < usizeBound)
    (h : minimalBytes m = minimalBytes n) : m = n := by
  rw [← beNat_minimalBytes hm, h, beNat_minimalBytes hn]

theorem minimalBytes_eq_cons {n : Nat} (h : n < usizeBound) (h0 : n ≠ 0) :
    ∃ b rest, minimalBytes n = b :: rest ∧ b ≠ 0 ∧ rest.length ≤ 7 := by
  obtain ⟨b, rest, hb⟩ := List.exists_cons_of_ne_nil (minimalBytes_ne_nil h h0)
  have hlen := length_minimalBytes_le n
  rw [hb, List.length_cons] at hlen
  exact ⟨b, rest, hb, trimZeros_head_ne_zero hb, by omega⟩

end RlpStream

/-!
## RLP decoding

The zero-copy view `Rlp` of `zbx-rlp/src/decode.rs`.
-/

/-- An error result, or a panic (which aborts the node: `panic = "abort"`). -/
inductive Fault (ε : Type) where
  | err (e : ε)
  | panic
deriving DecidableEq, Repr

/-- The variants of `RlpError` that the decoder raises. -/
inductive RlpError
  | unexpectedEnd (pos : Nat)
  | itemCountMismatch
  | overflow
  | expectedString
  | expectedList
deriving DecidableEq, Repr

def RlpError.display : RlpError → String
  | .unexpectedEnd pos => "unexpected end of input at byte " ++ toString pos
  | .itemCountMismatch => "list item count mismatch"
  | .overflow => "integer overflow in length field"
  | .expectedString => "expected string, got list"
  | .expectedList => "expected list, got string"

abbrev RlpResult := Except (Fault RlpError)

namespace Rlp

variable (data : Bytes)

def isList : Bool :=
  match data with
  | [] => false
  | b :: _ => b ≥ 0xc0

/-- `&data[start..stop]`. -/
def slice (start stop : Nat) : RlpResult Bytes :=
  if start ≤ stop ∧ stop ≤ data.length then .ok ((data.drop start).take (stop - start))
  else .error .panic

/-- `1 + len_bytes + len`, or an overflow. -/
def checkedEnd (lenBytes len : Nat) : RlpResult Nat :=
  if 1 + lenBytes + len < usizeBound then .ok (1 + lenBytes + len) else .error (.err .overflow)

/-- The low byte of the shifted value is zero, so the source's `|` adds. -/
def decodeLength (bytes : Bytes) : RlpResult Nat :=
  match bytes with
  | [] => .error (.err (.unexpectedEnd 0))
  | b :: _ =>
    if b = 0 then .error (.err .overflow)
    else .ok (bytes.foldl (fun val x => val * 256 % usizeBound + x.toNat) 0)

/-- Length of a long string or list whose header at `pos` announces `lenBytes`
length bytes. -/
def longItemLength (pos lenBytes : Nat) : RlpResult Nat := do
  if pos + 1 + lenBytes > data.length then
    throw (.err (.unexpectedEnd (pos + 1 + lenBytes)))
  let bytes ← slice data (pos + 1) (pos + 1 + lenBytes)
  let len ← decodeLength bytes
  checkedEnd lenBytes len

def announcedLength (pos : Nat) (b : UInt8) : RlpResult Nat :=
  if b < 0x80 then .ok 1
  else if b < 0xb8 then .ok (1 + (b.toNat - 0x80))
  else if b < 0xc0 then longItemLength data pos (b.toNat - 0xb7)
  else if b < 0xf8 then .ok (1 + (b.toNat - 0xc0))
  else longItemLength data pos (b.toNat - 0xf7)

/-- Total length, header included, of the item that starts at `pos`. -/
def itemLength (pos : Nat) : RlpResult Nat :=
  match data.drop pos with
  | [] => .error (.err (.unexpectedEnd pos))
  | b :: _ => do
    let itemLen ← announcedLength data pos b
    if pos + itemLen ≥ usizeBound then throw (.err .overflow)
    if pos + itemLen > data.length then throw (.err (.unexpectedEnd (pos + itemLen)))
    pure itemLen

/-- The two slices that a payload is returned as: `start..stop`, and what follows. -/
def splitAt (start stop : Nat) : RlpResult (Bytes × Bytes) := do
  let payload ← slice data start stop
  let rest ← slice data stop data.length
  pure (payload, rest)

def longPayload (lenBytes : Nat) : RlpResult (Bytes × Bytes) := do
  if 1 + lenBytes > data.length then throw (.err (.unexpectedEnd (1 + lenBytes)))
  let bytes ← slice data 1 (1 + lenBytes)
  let len ← decodeLength bytes
  let stop ← checkedEnd lenBytes len
  if stop > data.length then throw (.err (.unexpectedEnd stop))
  splitAt data (1 + lenBytes) stop

def shortPayload (len : Nat) : RlpResult (Bytes × Bytes) :=
  if 1 + len > data.length then .error (.err (.unexpectedEnd (1 + len)))
  else splitAt data 1 (1 + len)

def splitPayload : RlpResult (Bytes × Bytes) :=
  match data with
  | [] => .error (.err (.unexpectedEnd 0))
  | b :: _ =>
    if b < 0x80 then splitAt data 0 1
    else if b < 0xb8 then shortPayload data (b.toNat - 0x80)
    else if b < 0xc0 then longPayload data (b.toNat - 0xb7)
    else .error (.err .expectedString)

def listPayload : RlpResult (Bytes × Bytes) :=
  match data with
  | [] => .ok ([], [])
  | b :: _ =>
    if b < 0xc0 then .error (.err .expectedList)
    else if b < 0xf8 then shortPayload data (b.toNat - 0xc0)
    else longPayload data (b.toNat - 0xf7)

def asBytes : RlpResult Bytes := do
  let (payload, _) ← splitPayload data
  pure payload

/-- The counting loop of `item_count`. Every item takes at least one byte, so
`fuel = bytes.length` rounds are enough. -/
def itemCountFrom : Nat → Bytes → Nat → Nat → RlpResult Nat
  | 0, _, _, count => .ok count
  | fuel + 1, bytes, pos, count =>
    if pos < bytes.length then do
      let itemLen ← itemLength bytes pos
      itemCountFrom fuel bytes (pos + itemLen) (count + 1)
    else .ok count

def itemCount : RlpResult Nat :=
  match data with
  | [] => .ok 0
  | b :: _ =>
    if b < 0xc0 then .ok 0
    else do
      let (bytes, _) ← listPayload data
      itemCountFrom bytes.length bytes 0 0

/-- The scanning loop of `at`, with `n` items still to skip. -/
def itemAtFrom : Nat → Bytes → Nat → Nat → RlpResult Bytes
  | 0, _, _, _ => .error (.err .itemCountMismatch)
  | fuel + 1, bytes, pos, n =>
    if pos < bytes.length then do
      let itemLen ← itemLength bytes pos
      match n with
      | 0 => slice bytes pos (pos + itemLen)
      | n + 1 => itemAtFrom fuel bytes (pos + itemLen) n
    else .error (.err .itemCountMismatch)

/-- `Rlp::at`: the raw bytes of item `n` of a list. -/
def itemAt (n : Nat) : RlpResult Bytes := do
  let (bytes, _) ← listPayload data
  itemAtFrom bytes.length bytes 0 n

/-- `val_at::<Vec<u8>>`. -/
def valAt (n : Nat) : RlpResult Bytes := do
  let item ← itemAt data n
  asBytes item

/-- `Decodable for u64`. -/
def decodeU64 : RlpResult Nat := do
  let bytes ← asBytes data
  if bytes.length > 8 then throw (.err .overflow)
  pure (bytes.foldl (fun val x => val * 256 % usizeBound + x.toNat) 0)

end Rlp

end ZbxChain
