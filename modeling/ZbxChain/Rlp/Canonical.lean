import ZbxChain.Rlp.Tree

/-!
# Canonical encodings

Decoding as a byte string, as a `u64` or as a list of such items, and encoding the value again.
-/

namespace ZbxChain

inductive RlpShape where
  | bytes
  | u64
  | list (items : List RlpShape)

inductive RlpValue where
  | bytes (data : Bytes)
  | u64 (n : Nat)
  | list (items : List RlpValue)

/-! ## Decoding -/

namespace Rlp

mutual

def decodeAs : RlpShape → Bytes → RlpResult RlpValue
  | .bytes, data => do
    let bytes ← asBytes data
    return .bytes bytes
  | .u64, data => do
    let n ← decodeU64 data
    return .u64 n
  | .list shapes, data => do
    if !isList data then throw (.err .expectedList)
    let n ← itemCount data
    if n ≠ shapes.length then throw (.err .itemCountMismatch)
    let items ← decodeItems shapes data 0
    return .list items

def decodeItems : List RlpShape → Bytes → Nat → RlpResult (List RlpValue)
  | [], _, _ => .ok []
  | shape :: shapes, data, i => do
    let item ← itemAt data i
    let v ← decodeAs shape item
    let vs ← decodeItems shapes data (i + 1)
    return v :: vs

end

end Rlp

/-! ## Encoding -/

namespace RlpValue

mutual

def toTree : RlpValue → RlpTree
  | .bytes data => .bytes data
  | .u64 n => .bytes (RlpStream.minimalBytes n)
  | .list items => .list (toTrees items)

def toTrees : List RlpValue → List RlpTree
  | [] => []
  | v :: vs => v.toTree :: toTrees vs

end

def encode (v : RlpValue) : Bytes := v.toTree.encode

mutual

def HasShape : RlpShape → RlpValue → Prop
  | .bytes, .bytes _ => True
  | .u64, .u64 n => n < usizeBound
  | .list shapes, .list vs => HasShapes shapes vs
  | _, _ => False

def HasShapes : List RlpShape → List RlpValue → Prop
  | [], [] => True
  | shape :: shapes, v :: vs => HasShape shape v ∧ HasShapes shapes vs
  | _, _ => False

end

end RlpValue

/-! ## Canonical byte strings -/

namespace Rlp

/-- A header in its shortest form for a payload of `n` bytes: one byte up to 55, behind that
the length in as few bytes as possible. -/
def ShortestHeader (base n : Nat) (header : Bytes) : Prop :=
  (n ≤ 55 ∧ ∃ b : UInt8, b.toNat = base + n ∧ header = [b]) ∨
    (55 < n ∧ ∃ (b : UInt8) (len : Bytes), b.toNat = base + 55 + len.length ∧
      len.length ≤ 8 ∧ len.head? ≠ some 0 ∧ beNat len = n ∧ header = b :: len)

def IsSmallByte (data : Bytes) : Prop := ∃ b : UInt8, b < 0x80 ∧ data = [b]

/-- The byte string `payload` in its canonical form, with nothing behind it. -/
def StringForm (data payload : Bytes) : Prop :=
  (IsSmallByte payload ∧ data = payload) ∨
    (¬ IsSmallByte payload ∧ ∃ header, ShortestHeader 0x80 payload.length header ∧
      data = header ++ payload)

mutual

def Canonical : RlpShape → Bytes → Prop
  | .bytes, data => ∃ payload, StringForm data payload
  | .u64, data => ∃ payload, StringForm data payload ∧ payload.length ≤ 8 ∧
      payload.head? ≠ some 0
  | .list shapes, data => ∃ header payload, ShortestHeader 0xc0 payload.length header ∧
      data = header ++ payload ∧ CanonicalItems shapes payload

def CanonicalItems : List RlpShape → Bytes → Prop
  | [], data => data = []
  | shape :: shapes, data => ∃ item rest, data = item ++ rest ∧ Canonical shape item ∧
      CanonicalItems shapes rest

end

/-! ### Headers -/

open RlpStream

variable {d data header : Bytes} {base n : Nat}

theorem minimalBytes_eq {len : Bytes} (hlen : len.length ≤ 8) (hhead : len.head? ≠ some 0)
    (hval : beNat len = n) : len = minimalBytes n := by
  have hn : n < usizeBound := by
    have hlt := beNat_lt len
    have hpow : 256 ^ len.length ≤ 256 ^ 8 := Nat.pow_le_pow_right (by decide) hlen
    rw [hval] at hlt
    exact hlt.trans_le hpow
  exact eq_of_beNat_eq hhead (head?_trimZeros_ne _) (by rw [hval, beNat_minimalBytes hn])

theorem ShortestHeader.lt (h : ShortestHeader base n header) : n < usizeBound := by
  rcases h with ⟨hn, -⟩ | ⟨-, b, len, -, hlen, -, hval, -⟩
  · unfold usizeBound
    omega
  have hlt := beNat_lt len
  have hpow : 256 ^ len.length ≤ 256 ^ 8 := Nat.pow_le_pow_right (by decide) hlen
  rw [hval] at hlt
  exact hlt.trans_le hpow

theorem ShortestHeader.unique {header' : Bytes} (h : ShortestHeader base n header)
    (h' : ShortestHeader base n header') : header = header' := by
  rcases h with ⟨hn, b, hb, rfl⟩ | ⟨hn, b, len, hb, hlen, hhead, hval, rfl⟩
  · rcases h' with ⟨-, b', hb', rfl⟩ | ⟨hn', -⟩
    · rw [UInt8.toNat_inj.mp (hb.trans hb'.symm)]
    · omega
  rcases h' with ⟨hn', -⟩ | ⟨-, b', len', hb', hlen', hhead', hval', rfl⟩
  · omega
  have heq : len = len' := eq_of_beNat_eq hhead hhead' (hval.trans hval'.symm)
  subst heq
  rw [UInt8.toNat_inj.mp (hb.trans hb'.symm)]

theorem shortestHeader_long {b : UInt8} (hlong : 55 < n) (hn : n < usizeBound)
    (hb : b.toNat = base + 55 + (minimalBytes n).length) :
    ShortestHeader base n (b :: minimalBytes n) :=
  .inr ⟨hlong, b, minimalBytes n, hb, length_minimalBytes_le n, head?_trimZeros_ne _,
    beNat_minimalBytes hn, rfl⟩

theorem exists_listHeader (hd : d.length < usizeBound) :
    ∃ header, ShortestHeader 0xc0 d.length header ∧ listItem d = header ++ d := by
  obtain ⟨hshort, b, hb, he⟩ | ⟨hlong, b, hb, he⟩ := listItem_cases d
  · exact ⟨[b], .inl ⟨hshort, b, hb, rfl⟩, he⟩
  · exact ⟨b :: minimalBytes d.length, shortestHeader_long hlong hd hb, he⟩

theorem listItem_eq (h : ShortestHeader 0xc0 d.length header) : header ++ d = listItem d := by
  obtain ⟨header', h', he⟩ := exists_listHeader h.lt
  rw [he, h.unique h']

/-! ### Strings -/

theorem stringItem_small (h : IsSmallByte d) : stringItem d = d := by
  obtain ⟨b, hb, rfl⟩ := h
  rw [stringItem, if_pos hb]

theorem exists_stringHeader (hsmall : ¬ IsSmallByte d) (hd : d.length < usizeBound) :
    ∃ header, ShortestHeader 0x80 d.length header ∧ stringItem d = header ++ d := by
  obtain ⟨b, hdb, hb, -⟩ | ⟨hshort, b, hb, he⟩ | ⟨hlong, b, hb, he⟩ := stringItem_cases d
  · exact absurd ⟨b, hb, hdb⟩ hsmall
  · exact ⟨[b], .inl ⟨hshort, b, hb, rfl⟩, he⟩
  · exact ⟨b :: minimalBytes d.length, shortestHeader_long hlong hd hb, he⟩

theorem stringForm_stringItem (hd : d.length < usizeBound) : StringForm (stringItem d) d := by
  by_cases hsmall : IsSmallByte d
  · exact .inl ⟨hsmall, stringItem_small hsmall⟩
  · exact .inr ⟨hsmall, exists_stringHeader hsmall hd⟩

theorem StringForm.eq (h : StringForm data d) : data = stringItem d := by
  rcases h with ⟨hsmall, rfl⟩ | ⟨hsmall, header, hheader, rfl⟩
  · exact (stringItem_small hsmall).symm
  · obtain ⟨header', hheader', he⟩ := exists_stringHeader hsmall hheader.lt
    rw [he, hheader.unique hheader']

theorem foldl_eq_beNat (h : d.length ≤ 8) :
    d.foldl (fun val x => val * 256 % usizeBound + x.toNat) 0 = beNat d := by
  have hfit : (0 + 1) * 256 ^ d.length ≤ usizeBound := by
    rw [Nat.zero_add, Nat.one_mul]
    exact Nat.pow_le_pow_right (by decide) h
  rw [foldl_wrap_eq hfit, Nat.zero_mul, Nat.zero_add]

theorem decodeU64_stringItem (hn : n < usizeBound)
    (hfit : (stringItem (minimalBytes n)).length < usizeBound) :
    decodeU64 (stringItem (minimalBytes n)) = .ok n := by
  have hlen := length_minimalBytes_le n
  rw [decodeU64, asBytes_stringItem hfit]
  simp only [ok_bind, if_neg (Nat.not_lt.mpr hlen)]
  rw [foldl_eq_beNat hlen, beNat_minimalBytes hn]
  rfl

theorem decodeU64_lt (h : decodeU64 data = .ok n) : n < usizeBound := by
  rw [decodeU64] at h
  obtain ⟨d, -, h⟩ := bind_eq_ok.mp h
  by_cases hlen : d.length > 8
  · simp only [if_pos hlen] at h
    cases h
  simp only [if_neg hlen] at h
  have hle : d.length ≤ 8 := Nat.not_lt.mp hlen
  have hval : beNat d = n := by
    rw [← foldl_eq_beNat hle]
    exact Except.ok.inj h
  rw [← hval]
  exact (beNat_lt d).trans_le (Nat.pow_le_pow_right (by decide) hle)

end Rlp

/-! ## Values and their encodings -/

namespace RlpValue

open Rlp RlpStream RlpTree

theorem toTrees_append (vs ws : List RlpValue) : toTrees (vs ++ ws) = toTrees vs ++ toTrees ws := by
  induction vs with
  | nil => rfl
  | cons v vs ih => simp [toTrees, ih]

theorem length_toTrees (vs : List RlpValue) : (toTrees vs).length = vs.length := by
  induction vs with
  | nil => rfl
  | cons v vs ih => simp [toTrees, ih]

mutual

theorem canonical_encode : ∀ {shape : RlpShape} {v : RlpValue}, HasShape shape v →
    v.encode.length < usizeBound → Canonical shape v.encode
  | .bytes, .bytes d, _, hfit =>
    ⟨d, stringForm_stringItem ((length_stringItem d).1.trans_lt hfit)⟩
  | .u64, .u64 n, _, hfit =>
    ⟨minimalBytes n, stringForm_stringItem ((length_stringItem _).1.trans_lt hfit),
      length_minimalBytes_le n, head?_trimZeros_ne _⟩
  | .list shapes, .list vs, hvs, hfit => by
    have hlen := (length_listItem (encodeItems (toTrees vs))).1
    obtain ⟨header, hheader, he⟩ := exists_listHeader (hlen.trans hfit)
    exact ⟨header, encodeItems (toTrees vs), hheader, he, canonicalItems_encode hvs (hlen.trans hfit)⟩

theorem canonicalItems_encode : ∀ {shapes : List RlpShape} {vs : List RlpValue},
    HasShapes shapes vs → (encodeItems (toTrees vs)).length < usizeBound →
      CanonicalItems shapes (encodeItems (toTrees vs))
  | [], [], _, _ => rfl
  | shape :: shapes, v :: vs, ⟨hv, hvs⟩, hfit => by
    rw [toTrees, encodeItems, List.length_append] at hfit
    refine ⟨v.encode, encodeItems (toTrees vs), rfl, canonical_encode hv ?_,
      canonicalItems_encode hvs ?_⟩
    · exact (Nat.le_add_right _ _).trans_lt hfit
    · exact (Nat.le_add_left _ _).trans_lt hfit

end

mutual

theorem exists_encode : ∀ {shape : RlpShape} {data : Bytes}, Canonical shape data →
    ∃ v, HasShape shape v ∧ v.encode = data
  | .bytes, _, ⟨d, hform⟩ => ⟨.bytes d, trivial, hform.eq.symm⟩
  | .u64, _, ⟨d, hform, hlen, hhead⟩ => by
    have hbytes : d = minimalBytes (beNat d) := minimalBytes_eq hlen hhead rfl
    refine ⟨.u64 (beNat d), ?_, ?_⟩
    · exact (beNat_lt d).trans_le (Nat.pow_le_pow_right (by decide) hlen)
    · rw [encode, toTree, ← hbytes]
      exact hform.eq.symm
  | .list shapes, _, ⟨header, payload, hheader, hdata, hitems⟩ => by
    obtain ⟨vs, hvs, hpayload⟩ := exists_encodeItems hitems
    refine ⟨.list vs, hvs, ?_⟩
    rw [hdata, listItem_eq hheader, ← hpayload]
    rfl

theorem exists_encodeItems : ∀ {shapes : List RlpShape} {data : Bytes},
    CanonicalItems shapes data → ∃ vs, HasShapes shapes vs ∧ encodeItems (toTrees vs) = data
  | [], _, hnil => ⟨[], trivial, hnil.symm⟩
  | _ :: _, _, ⟨item, rest, hdata, hitem, hrest⟩ => by
    obtain ⟨v, hv, hvitem⟩ := exists_encode hitem
    obtain ⟨vs, hvs, hvsrest⟩ := exists_encodeItems hrest
    refine ⟨v :: vs, ⟨hv, hvs⟩, ?_⟩
    rw [toTrees, encodeItems, hvsrest, hdata, ← hvitem]
    rfl

end

theorem length_of_hasShapes : ∀ {shapes : List RlpShape} {vs : List RlpValue},
    HasShapes shapes vs → shapes.length = vs.length
  | [], [], _ => rfl
  | _ :: _, _ :: _, ⟨_, hvs⟩ => congrArg Nat.succ (length_of_hasShapes hvs)

mutual

theorem decodeAs_encode : ∀ {shape : RlpShape} {v : RlpValue}, HasShape shape v →
    v.encode.length < usizeBound → decodeAs shape v.encode = .ok v
  | .bytes, .bytes d, _, hfit => by
    rw [decodeAs, encode, toTree, RlpTree.encode, asBytes_stringItem hfit]
    rfl
  | .u64, .u64 n, hn, hfit => by
    rw [decodeAs, encode, toTree, RlpTree.encode, decodeU64_stringItem hn hfit]
    rfl
  | .list shapes, .list vs, hvs, hfit => by
    have hlist : isList (RlpTree.list (toTrees vs)).encode = true := isList_listItem _
    have hcount : itemCount (RlpTree.list (toTrees vs)).encode = .ok shapes.length := by
      rw [itemCount_encode hfit, length_toTrees, length_of_hasShapes hvs]
    have hitems := decodeItems_encode hfit [] hvs (List.nil_append vs).symm
    rw [decodeAs, encode, toTree, hlist, hcount]
    simp only [Bool.not_true, ok_bind, ne_eq, not_true_eq_false, if_false, Bool.false_eq_true]
    rw [List.length_nil] at hitems
    rw [hitems]
    rfl

theorem decodeItems_encode : ∀ {shapes : List RlpShape} {all back : List RlpValue},
    (RlpTree.list (toTrees all)).encode.length < usizeBound → ∀ front : List RlpValue,
      HasShapes shapes back → all = front ++ back →
        decodeItems shapes (RlpTree.list (toTrees all)).encode front.length = .ok back
  | [], _, [], _, _, _, _ => by rw [decodeItems]
  | shape :: shapes, all, v :: vs, hfit, front, ⟨hv, hvs⟩, hsplit => by
    have htrees : toTrees all = toTrees front ++ v.toTree :: toTrees vs := by
      rw [hsplit, toTrees_append, toTrees]
    have hitem := itemAt_encode hfit (toTrees front) htrees
    have hvfit : v.encode.length < usizeBound :=
      length_encode_item (by rw [htrees]; simp) hfit
    have hrest := decodeItems_encode hfit (front ++ [v]) hvs (by rw [hsplit, List.append_assoc]; rfl)
    rw [length_toTrees] at hitem
    rw [List.length_append] at hrest
    rw [decodeItems, hitem]
    simp only [ok_bind]
    rw [show v.toTree.encode = v.encode from rfl, decodeAs_encode hv hvfit]
    simp only [ok_bind]
    rw [show front.length + 1 = front.length + [v].length from rfl, hrest]
    rfl

end

mutual

theorem hasShape_decodeAs : ∀ {shape : RlpShape} {data : Bytes} {v : RlpValue},
    decodeAs shape data = .ok v → HasShape shape v
  | .bytes, data, v, h => by
    rw [decodeAs] at h
    obtain ⟨d, -, h⟩ := bind_eq_ok.mp h
    cases h
    exact trivial
  | .u64, data, v, h => by
    rw [decodeAs] at h
    obtain ⟨n, hn, h⟩ := bind_eq_ok.mp h
    cases h
    exact decodeU64_lt hn
  | .list shapes, data, v, h => by
    rw [decodeAs] at h
    by_cases hlist : isList data = true
    · simp only [hlist, Bool.not_true, Bool.false_eq_true, if_false] at h
      obtain ⟨n, -, h⟩ := bind_eq_ok.mp h
      by_cases hn : n = shapes.length
      · simp only [hn, ne_eq, not_true_eq_false, if_false] at h
        obtain ⟨vs, hvs, h⟩ := bind_eq_ok.mp h
        cases h
        exact hasShapes_decodeItems hvs
      · simp only [ne_eq, hn, not_false_eq_true, if_true] at h
        cases h
    · simp only [hlist, Bool.not_false, if_true] at h
      cases h

theorem hasShapes_decodeItems : ∀ {shapes : List RlpShape} {data : Bytes} {i : Nat}
    {vs : List RlpValue}, decodeItems shapes data i = .ok vs → HasShapes shapes vs
  | [], data, i, vs, h => by
    rw [decodeItems] at h
    cases h
    exact trivial
  | shape :: shapes, data, i, vs, h => by
    rw [decodeItems] at h
    obtain ⟨item, -, h⟩ := bind_eq_ok.mp h
    obtain ⟨v, hv, h⟩ := bind_eq_ok.mp h
    obtain ⟨rest, hrest, h⟩ := bind_eq_ok.mp h
    cases h
    exact ⟨hasShape_decodeAs hv, hasShapes_decodeItems hrest⟩

end

/-- A byte string that is accepted comes back from its value exactly when it is canonical. -/
theorem reencode_iff {shape : RlpShape} {data : Bytes} {v : RlpValue}
    (hlen : data.length < usizeBound) (h : decodeAs shape data = .ok v) :
    v.encode = data ↔ Canonical shape data := by
  constructor
  · intro heq
    subst heq
    exact canonical_encode (hasShape_decodeAs h) hlen
  intro hcanonical
  obtain ⟨w, hw, heq⟩ := exists_encode hcanonical
  subst heq
  have hwv : w = v := Except.ok.inj ((decodeAs_encode hw hlen).symm.trans h)
  rw [hwv]

/-- A list of the integer 1 and the empty string. -/
theorem reencode_pair :
    decodeAs (.list [.u64, .bytes]) [0xc2, 0x01, 0x80] = .ok (.list [.u64 1, .bytes []]) ∧
      encode (.list [.u64 1, .bytes []]) = [0xc2, 0x01, 0x80] := by
  have hdecode : decodeAs (.list [.u64, .bytes]) [0xc2, 0x01, 0x80] =
      .ok (.list [.u64 1, .bytes []]) := rfl
  have hone : Canonical .u64 [0x01] :=
    ⟨[1], .inl ⟨⟨1, by decide, rfl⟩, rfl⟩, by decide, by decide⟩
  have hempty : Canonical .bytes [0x80] := by
    refine ⟨[], .inr ⟨?_, [0x80], .inl ⟨by decide, 0x80, rfl, rfl⟩, rfl⟩⟩
    rintro ⟨b, -, hb⟩
    cases hb
  have hcanonical : Canonical (.list [.u64, .bytes]) [0xc2, 0x01, 0x80] :=
    ⟨[0xc2], [0x01, 0x80], .inl ⟨by decide, 0xc2, rfl, rfl⟩, rfl, [0x01], [0x80], rfl, hone,
      [0x80], [], rfl, hempty, rfl⟩
  exact ⟨hdecode, (reencode_iff (by decide) hdecode).mpr hcanonical⟩

/-- Byte strings that are accepted and do not come back: a small byte with a header, a byte
behind the item, a long length of a short item, and an integer with a leading zero. -/
theorem reencode_differs : (decodeAs .bytes [0x81, 0x05] = .ok (.bytes [0x05]) ∧
      encode (.bytes [0x05]) ≠ [0x81, 0x05]) ∧ (decodeAs .bytes [0x05, 0xff] = .ok (.bytes [0x05]) ∧
      encode (.bytes [0x05]) ≠ [0x05, 0xff]) ∧
    (decodeAs .bytes [0xb8, 0x01, 0xff] = .ok (.bytes [0xff]) ∧
      encode (.bytes [0xff]) ≠ [0xb8, 0x01, 0xff]) ∧
    (decodeAs .u64 [0x82, 0x00, 0x01] = .ok (.u64 1) ∧ encode (.u64 1) ≠ [0x82, 0x00, 0x01]) :=
  ⟨⟨rfl, by decide⟩, ⟨rfl, by decide⟩, ⟨rfl, by decide⟩, rfl, by decide⟩

end RlpValue

end ZbxChain
