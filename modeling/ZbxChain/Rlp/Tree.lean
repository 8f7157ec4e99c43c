import ZbxChain.Rlp.Items

/-!
# Trees of byte strings

What a caller of `RlpStream` and `Rlp` does with nested data: open a list, append its items, close
it; on the way back ask whether an item is a list, count its items and fetch each.
-/

namespace ZbxChain

open List RlpStream

inductive RlpTree where
  | bytes (data : Bytes)
  | list (items : List RlpTree)

namespace RlpTree

mutual

def encode : RlpTree → Bytes
  | .bytes data => stringItem data
  | .list items => listItem (encodeItems items)

def encodeItems : List RlpTree → Bytes
  | [] => []
  | t :: ts => t.encode ++ encodeItems ts

end

mutual

def depth : RlpTree → Nat
  | .bytes _ => 0
  | .list items => depthItems items + 1

def depthItems : List RlpTree → Nat
  | [] => 0
  | t :: ts => max t.depth (depthItems ts)

end

theorem induct {P : RlpTree → Prop} (bytes : ∀ data, P (.bytes data))
    (list : ∀ items, (∀ t ∈ items, P t) → P (.list items)) (t : RlpTree) : P t := by
  refine @RlpTree.rec P (fun items => ∀ t ∈ items, P t) bytes list ?_ ?_ t
  · intro t ht
    cases ht
  intro t ts iht ihts u hu
  rcases mem_cons.mp hu with rfl | hmem
  · exact iht
  · exact ihts u hmem

theorem encodeItems_eq (items : List RlpTree) : encodeItems items = (items.map encode).flatten := by
  induction items with
  | nil => rfl
  | cons t ts ih => rw [encodeItems, ih, map_cons, flatten_cons]

theorem depth_le_depthItems {t : RlpTree} {items : List RlpTree} (h : t ∈ items) :
    t.depth ≤ depthItems items := by
  induction items with
  | nil => cases h
  | cons u ts ih =>
    rw [depthItems]
    rcases mem_cons.mp h with rfl | hmem
    · exact Nat.le_max_left _ _
    · exact (ih hmem).trans (Nat.le_max_right _ _)

end RlpTree

/-! ## Writing -/

namespace RlpStream

mutual

/-- Append a tree. Each list is closed behind its last item, except that the first `open`
lists along the last branch stay open; `none` when there is no list to close. -/
def appendTree : Nat → RlpStream → RlpTree → Option RlpStream
  | _, s, .bytes data => some (s.append data)
  | 0, s, .list items => do
    let s ← appendItems 0 (s.beginList items.length) items
    s.finalizeUnboundedList
  | k + 1, s, .list items => appendItems k (s.beginList items.length) items

/-- Append the items of a list; only the last of them may stay open. -/
def appendItems : Nat → RlpStream → List RlpTree → Option RlpStream
  | _, s, [] => some s
  | k, s, [t] => appendTree k s t
  | k, s, t :: ts => do
    let s ← appendTree 0 s t
    appendItems k s ts

end

variable {s : RlpStream}

theorem appendRaw_appendRaw (c d : Bytes) : (s.appendRaw c).appendRaw d = s.appendRaw (c ++ d) := by
  simp only [appendRaw, append_assoc]

variable (n : Nat) (content : Bytes)

theorem closeList_beginList : closeList ((s.beginList n).appendRaw content).buf s.buf.length =
      (s.appendRaw (listItem content)).buf := by
  have hdrop : ((s.beginList n).appendRaw content).buf.drop (s.buf.length + 9) = content := by
    simp [beginList, appendRaw]
  have htake : ((s.beginList n).appendRaw content).buf.take s.buf.length = s.buf := by
    simp [beginList, appendRaw]
  rw [closeList, hdrop, htake, appendRaw_buf, listItem, append_assoc]

theorem finalizeUnboundedList_beginList :
    ((s.beginList n).appendRaw content).finalizeUnboundedList =
      some (s.appendRaw (listItem content)) := by
  have hclose := closeList_beginList (s := s) n content
  show some (⟨closeList ((s.beginList n).appendRaw content).buf s.buf.length, s.listStack⟩ :
    RlpStream) = _
  rw [hclose]
  rfl

theorem out_beginList :
    ((s.beginList n).appendRaw content).out = (s.appendRaw (listItem content)).out := by
  have hclose := closeList_beginList (s := s) n content
  show s.listStack.foldl closeList (closeList ((s.beginList n).appendRaw content).buf
    s.buf.length) = _
  rw [hclose]
  rfl

/-! ### Closed lists -/

variable {items : List RlpTree}

theorem appendItems_closed (h : ∀ t ∈ items, ∀ s, appendTree 0 s t = some (s.appendRaw t.encode))
    (s : RlpStream) : appendItems 0 s items = some (s.appendRaw (RlpTree.encodeItems items)) := by
  induction items generalizing s with
  | nil => simp [appendItems, RlpTree.encodeItems, appendRaw]
  | cons t ts ih =>
    have ht := h t mem_cons_self s
    have hts := ih (fun u hu => h u (mem_cons_of_mem t hu)) (s.appendRaw t.encode)
    rw [appendRaw_appendRaw] at hts
    cases ts with
    | nil =>
      rw [appendItems, ht]
      simp [RlpTree.encodeItems]
    | cons u us =>
      rw [appendItems, ht]
      · exact hts
      · simp

theorem appendTree_closed (t : RlpTree) (s : RlpStream) :
    appendTree 0 s t = some (s.appendRaw t.encode) := by
  induction t using RlpTree.induct generalizing s with
  | bytes data => rfl
  | list items ih =>
    rw [appendTree, appendItems_closed (fun t ht s => ih t ht s)]
    exact finalizeUnboundedList_beginList items.length _

/-! ### Lists that stay open -/

theorem appendItems_out {k : Nat}
    (h : ∀ t ∈ items, ∀ s, ∃ s', appendTree k s t = some s' ∧ s'.out = (s.appendRaw t.encode).out)
    (s : RlpStream) : ∃ s', appendItems k s items = some s' ∧
      s'.out = (s.appendRaw (RlpTree.encodeItems items)).out := by
  induction items generalizing s with
  | nil => exact ⟨s, by rw [appendItems], by simp [RlpTree.encodeItems, appendRaw]⟩
  | cons t ts ih =>
    cases ts with
    | nil =>
      obtain ⟨s', hs', hout⟩ := h t mem_cons_self s
      exact ⟨s', by rw [appendItems, hs'], by simpa [RlpTree.encodeItems] using hout⟩
    | cons u us =>
      obtain ⟨s', hs', hout⟩ := ih (fun v hv => h v (mem_cons_of_mem t hv))
        (s.appendRaw t.encode)
      rw [appendRaw_appendRaw] at hout
      refine ⟨s', ?_, hout⟩
      rw [appendItems, appendTree_closed]
      · exact hs'
      · simp

theorem appendTree_out (k : Nat) (t : RlpTree) (s : RlpStream) :
    ∃ s', appendTree k s t = some s' ∧ s'.out = (s.appendRaw t.encode).out := by
  induction t using RlpTree.induct generalizing k s with
  | bytes data => exact ⟨s.append data, by rw [appendTree], rfl⟩
  | list items ih =>
    cases k with
    | zero => exact ⟨_, appendTree_closed (.list items) s, rfl⟩
    | succ k =>
      obtain ⟨s', hs', hout⟩ := appendItems_out (k := k) (fun t ht s => ih t ht k s)
        (s.beginList items.length)
      refine ⟨s', by rw [appendTree, hs'], ?_⟩
      rw [hout, out_beginList]
      rfl

end RlpStream

/-! ## Reading -/

namespace Rlp

/-- Fetch the items from `i` on, `n` of them, and read each. -/
def readItems (read : Bytes → RlpResult RlpTree) (data : Bytes) :
    Nat → Nat → RlpResult (List RlpTree)
  | _, 0 => .ok []
  | i, n + 1 => do
    let item ← itemAt data i
    let t ← read item
    let ts ← readItems read data (i + 1) n
    return t :: ts

/-- Read a tree whose lists are nested at most `fuel` deep. -/
def readNested : Nat → Bytes → RlpResult RlpTree
  | 0, data => do
    let bytes ← asBytes data
    return .bytes bytes
  | fuel + 1, data =>
    if isList data then do
      let n ← itemCount data
      let items ← readItems (readNested fuel) data 0 n
      return .list items
    else do
      let bytes ← asBytes data
      return .bytes bytes

/-- A list takes at least one byte more than its items, so that the length of the data bounds
the depth. -/
def readTree (data : Bytes) : RlpResult RlpTree := readNested data.length data

end Rlp

namespace RlpTree

open Rlp

variable {all back items : List RlpTree} {t : RlpTree}

theorem length_encode_le (h : t ∈ items) : t.encode.length ≤ (encodeItems items).length := by
  rw [encodeItems_eq]
  exact (sublist_flatten_of_mem (mem_map_of_mem h)).length_le

theorem depth_le_length (t : RlpTree) : t.depth ≤ t.encode.length := by
  induction t using RlpTree.induct with
  | bytes data => exact Nat.zero_le _
  | list items ih =>
    have hitems : depthItems items ≤ (encodeItems items).length := by
      induction items with
      | nil => exact Nat.zero_le _
      | cons t ts ihts =>
        rw [depthItems, encodeItems, length_append]
        have ht := ih t mem_cons_self
        have hts := ihts fun u hu => ih u (mem_cons_of_mem t hu)
        omega
    have hlist := length_listItem (encodeItems items)
    rw [depth, encode]
    omega

theorem isItem_of_mem {e : Bytes} (h : e ∈ items.map encode) : IsItem e := by
  obtain ⟨t, -, rfl⟩ := mem_map.mp h
  cases t with
  | bytes data => exact isItem_stringItem data
  | list items => exact isItem_listItem (encodeItems items)

theorem itemCount_encode (hfit : (list items).encode.length < usizeBound) :
    itemCount (list items).encode = .ok items.length := by
  rw [encode, encodeItems_eq] at hfit ⊢
  rw [itemCount_listItem (fun e he => isItem_of_mem he) hfit, length_map]

theorem itemAt_encode (hfit : (list all).encode.length < usizeBound) (front : List RlpTree)
    (hsplit : all = front ++ t :: back) : itemAt (list all).encode front.length = .ok t.encode := by
  rw [encode, encodeItems_eq] at hfit ⊢
  exact itemAt_listItem (fun e he => isItem_of_mem he) hfit (by simp [hsplit])

theorem length_encode_item (h : t ∈ items) (hfit : (list items).encode.length < usizeBound) :
    t.encode.length < usizeBound := by
  have hle := length_encode_le h
  have hlen := length_listItem (encodeItems items)
  rw [encode] at hfit
  omega

theorem readItems_encode {read : Bytes → RlpResult RlpTree}
    (hfit : (list all).encode.length < usizeBound) (hread : ∀ t ∈ all, read t.encode = .ok t)
    (front : List RlpTree) (hsplit : all = front ++ back) :
    readItems read (list all).encode front.length back.length = .ok back := by
  induction back generalizing front with
  | nil => rfl
  | cons t ts ih =>
    have hitem := itemAt_encode hfit front hsplit
    have hrest := ih (front ++ [t]) (by rw [hsplit, append_assoc]; rfl)
    rw [length_append] at hrest
    rw [length_cons, readItems, hitem]
    simp only [ok_bind, hread t (by rw [hsplit]; simp)]
    rw [show front.length + 1 = front.length + [t].length from rfl, hrest]
    rfl

theorem readNested_encode {fuel : Nat} (hfit : t.encode.length < usizeBound)
    (hfuel : t.depth ≤ fuel) : readNested fuel t.encode = .ok t := by
  induction t using RlpTree.induct generalizing fuel with
  | bytes data =>
    have hbytes := asBytes_stringItem hfit
    have hlist := isList_stringItem data
    cases fuel with
    | zero => rw [readNested, encode, hbytes]; rfl
    | succ fuel => rw [readNested, encode, hlist, hbytes]; rfl
  | list items ih =>
    rw [depth] at hfuel
    obtain ⟨fuel, rfl⟩ := Nat.exists_eq_succ_of_ne_zero (by omega : fuel ≠ 0)
    have hread : ∀ t ∈ items, readNested fuel t.encode = .ok t := by
      intro t ht
      have hdepth := depth_le_depthItems ht
      exact ih t ht (length_encode_item ht hfit) (by omega)
    have hitems := readItems_encode hfit hread [] (nil_append items).symm
    have hlist : isList (list items).encode = true := isList_listItem _
    rw [length_nil] at hitems
    rw [readNested, if_pos hlist, itemCount_encode hfit]
    simp only [ok_bind]
    rw [hitems]
    rfl

theorem readTree_encode (hfit : t.encode.length < usizeBound) : readTree t.encode = .ok t :=
  readNested_encode hfit (depth_le_length t)

theorem encode_injective {u : RlpTree} (hfit : t.encode.length < usizeBound)
    (h : t.encode = u.encode) : t = u := by
  have ht := readTree_encode hfit
  rw [h] at ht hfit
  exact Except.ok.inj (ht.symm.trans (readTree_encode hfit))

/-! ## Round trip -/

/-- A tree that is written to a stream is read back from its output. The length of the output
is a `usize`. -/
theorem tree_round_trip (k : Nat) (t : RlpTree) : ∃ s, appendTree k .new t = some s ∧
      (s.out.length < usizeBound → readTree s.out = .ok t) := by
  obtain ⟨s, hbuild, hout⟩ := appendTree_out k t .new
  have hencode : s.out = t.encode := by rw [hout]; rfl
  refine ⟨s, hbuild, fun hfit => ?_⟩
  rw [hencode] at hfit ⊢
  exact readTree_encode hfit

/-- Strings of 55 and 56 bytes, alone in a list and in a list of both, with the outer list left
to `out`. -/
def boundaryTree : RlpTree :=
  .list [.list [.bytes (replicate 54 1)], .list [.bytes (replicate 55 1)],
    .list [.bytes (replicate 55 1), .bytes (replicate 56 1), .list []]]

theorem tree_round_trip_boundary :
    ∃ s, appendTree 1 .new boundaryTree = some s ∧ readTree s.out = .ok boundaryTree := by
  obtain ⟨s, hbuild, hread⟩ := tree_round_trip 1 boundaryTree
  refine ⟨s, hbuild, hread ?_⟩
  have hfit : (appendTree 1 .new boundaryTree).any (·.out.length < usizeBound) = true := by
    decide +kernel
  rw [hbuild] at hfit
  exact of_decide_eq_true hfit

end RlpTree

end ZbxChain
