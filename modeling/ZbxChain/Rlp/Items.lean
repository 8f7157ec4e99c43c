import ZbxChain.Lib.Except
import ZbxChain.Rlp.Decode

/-!
# Decoding encoded items

What the decoder returns on the output of the encoder.
-/

namespace ZbxChain.Rlp

open RlpStream List

/-! ## Lengths -/

theorem foldl_wrap_eq {b : Bytes} {acc : Nat} (h : (acc + 1) * 256 ^ b.length ≤ usizeBound) :
    b.foldl (fun val x => val * 256 % usizeBound + x.toNat) acc =
      acc * 256 ^ b.length + beNat b := by
  induction b generalizing acc with
  | nil => simp
  | cons x b ih =>
    have hx : x.toNat < 256 := x.toNat_lt
    have hpow : (acc + 1) * 256 * 256 ^ b.length ≤ usizeBound := by
      calc (acc + 1) * 256 * 256 ^ b.length = (acc + 1) * 256 ^ (b.length + 1) := by ring
        _ ≤ usizeBound := h
    have hwrap : acc * 256 % usizeBound = acc * 256 := by
      apply Nat.mod_eq_of_lt
      have : 1 ≤ 256 ^ b.length := Nat.one_le_pow _ _ (by norm_num)
      nlinarith
    have hstep : (acc * 256 + x.toNat + 1) * 256 ^ b.length ≤ usizeBound :=
      le_trans (Nat.mul_le_mul_right _ (by omega)) hpow
    rw [foldl_cons, hwrap, ih hstep, beNat_cons, length_cons]
    ring

variable {d data e rest tail : Bytes} {items : List Bytes} {fuel n pos : Nat} {b : UInt8}

theorem slice_add {len : Nat} (h : pos + len ≤ data.length) :
    slice data pos (pos + len) = .ok ((data.drop pos).take len) := by
  rw [slice, if_pos ⟨by omega, h⟩, Nat.add_sub_cancel_left]

theorem splitAt_add {len : Nat} (h : pos + len ≤ data.length) :
    splitAt data pos (pos + len) = .ok ((data.drop pos).take len, data.drop (pos + len)) := by
  have hrest : slice data (pos + len) data.length = .ok (data.drop (pos + len)) := by
    rw [slice, if_pos ⟨h, le_refl _⟩, take_of_length_le (by rw [length_drop])]
  rw [splitAt, slice_add h, hrest]
  rfl

theorem decodeLength_minimalBytes (h : n < usizeBound) (h0 : n ≠ 0) :
    decodeLength (minimalBytes n) = .ok n := by
  obtain ⟨b, rest, hb, hne, hlen⟩ := minimalBytes_eq_cons h h0
  have hfit : (0 + 1) * 256 ^ (b :: rest).length ≤ usizeBound := by
    have : 256 ^ (b :: rest).length ≤ 256 ^ 8 :=
      Nat.pow_le_pow_right (by norm_num) (by rw [length_cons]; omega)
    simpa [usizeBound] using this
  have hval : beNat (b :: rest) = n := by rw [← hb, beNat_minimalBytes h]
  rw [hb]
  simp only [decodeLength, if_neg hne]
  rw [foldl_wrap_eq hfit, hval]
  simp

/-! ## Encoded items -/

/-- `e` is read as one item of its own length wherever it stands. -/
def IsItem (e : Bytes) : Prop :=
  e ≠ [] ∧ ∀ {data rest : Bytes} {pos : Nat}, data.length < usizeBound →
    data.drop pos = e ++ rest → itemLength data pos = .ok e.length

theorem toNat_ofNat_of_lt (h : n < 256) : (UInt8.ofNat n).toNat = n := by
  simp [UInt8.toNat_ofNat', Nat.mod_eq_of_lt h]

theorem length_of_drop (he : e ≠ []) (h : data.drop pos = e ++ rest) :
    pos + e.length + rest.length = data.length := by
  have hlen := congrArg length h
  have hpos := length_pos_iff.mpr he
  simp only [length_drop, length_append] at hlen
  omega

theorem longItemLength_of_drop (hn : n < usizeBound) (h0 : n ≠ 0)
    (hfit : 1 + (minimalBytes n).length + n < usizeBound)
    (h : data.drop pos = (b :: minimalBytes n) ++ tail) :
    longItemLength data pos (minimalBytes n).length = .ok (1 + (minimalBytes n).length + n) := by
  have hlen := length_of_drop (by simp) h
  have hdrop : data.drop (pos + 1) = minimalBytes n ++ tail := by
    rw [← drop_drop, h]
    simp
  have hle : ¬ pos + 1 + (minimalBytes n).length > data.length := by
    simp only [length_cons] at hlen
    omega
  simp only [longItemLength, if_neg hle, slice_add (Nat.not_lt.mp hle), hdrop, take_left,
    decodeLength_minimalBytes hn h0, checkedEnd, if_pos hfit, ok_bind]

theorem itemLength_eq (hdata : data.length < usizeBound) (h : data.drop pos = (b :: tail) ++ rest)
    (hlen : announcedLength data pos b = .ok (b :: tail).length) :
    itemLength data pos = .ok (b :: tail).length := by
  have hfit := length_of_drop (by simp) h
  have h₁ : ¬ pos + (b :: tail).length ≥ usizeBound := by omega
  have h₂ : ¬ pos + (b :: tail).length > data.length := by omega
  rw [cons_append] at h
  simp only [itemLength, h, hlen, ok_bind, if_neg h₁, if_neg h₂, pure_eq_ok]

attribute [local grind =] UInt8.lt_iff_toNat_lt

theorem isItem_short (base : Nat) (hd : d.length ≤ 55) (hb : b.toNat = base + d.length)
    (hbase : base = 0x80 ∨ base = 0xc0) : IsItem (b :: d) := by
  refine ⟨by simp, fun hdata h => itemLength_eq hdata h ?_⟩
  rcases hbase with rfl | rfl
  · have hrange : ¬ b < 0x80 ∧ b < 0xb8 := by grind
    simp [announcedLength, hrange, hb, Nat.add_comm]
  · have hrange : ¬ b < 0x80 ∧ ¬ b < 0xb8 ∧ ¬ b < 0xc0 ∧ b < 0xf8 := by grind
    simp [announcedLength, hrange, hb, Nat.add_comm]

theorem isItem_long (base : Nat) (hd : 55 < d.length)
    (hb : b.toNat = base + (minimalBytes d.length).length) (hbase : base = 0xb7 ∨ base = 0xf7) :
    IsItem (b :: (minimalBytes d.length ++ d)) := by
  refine ⟨by simp, fun {data rest pos} hdata h => itemLength_eq hdata h ?_⟩
  have hle := length_minimalBytes_le d.length
  have hfit := length_of_drop (by simp) h
  simp only [length_cons, length_append] at hfit
  have hn : d.length < usizeBound := by omega
  have hpos := length_pos_iff.mpr (minimalBytes_ne_nil hn (by omega))
  have hlong : longItemLength data pos (minimalBytes d.length).length =
      .ok (1 + (minimalBytes d.length).length + d.length) :=
    longItemLength_of_drop hn (by omega) (by omega) (by simpa using h)
  have hlen : (b :: (minimalBytes d.length ++ d)).length =
      1 + (minimalBytes d.length).length + d.length := by
    simp only [length_cons, length_append]
    omega
  rw [hlen]
  rcases hbase with rfl | rfl
  · have hrange : ¬ b < 0x80 ∧ ¬ b < 0xb8 ∧ b < 0xc0 := by grind
    simpa [announcedLength, hrange, hb] using hlong
  · have hrange : ¬ b < 0x80 ∧ ¬ b < 0xb8 ∧ ¬ b < 0xc0 ∧ ¬ b < 0xf8 := by grind
    simpa [announcedLength, hrange, hb] using hlong

theorem stringItem_cases (d : Bytes) : (∃ b, d = [b] ∧ b < 0x80 ∧ stringItem d = [b]) ∨
    (d.length ≤ 55 ∧ ∃ b : UInt8, b.toNat = 0x80 + d.length ∧ stringItem d = b :: d) ∨
    (55 < d.length ∧ ∃ b : UInt8, b.toNat = 0xb7 + (minimalBytes d.length).length ∧
      stringItem d = b :: (minimalBytes d.length ++ d)) := by
  unfold stringItem
  split
  · exact .inr (.inl ⟨by simp, 0x80, rfl, rfl⟩)
  · next b =>
    split
    · next hb => exact .inl ⟨b, rfl, hb, rfl⟩
    · exact .inr (.inl ⟨by simp, 0x81, rfl, rfl⟩)
  have hle := length_minimalBytes_le d.length
  split
  · next h => exact .inr (.inl ⟨h, _, toNat_ofNat_of_lt (by omega), rfl⟩)
  · next h => exact .inr (.inr ⟨by omega, _, toNat_ofNat_of_lt (by omega), rfl⟩)

theorem listItem_cases (d : Bytes) :
    (d.length ≤ 55 ∧ ∃ b : UInt8, b.toNat = 0xc0 + d.length ∧ listItem d = b :: d) ∨
    (55 < d.length ∧ ∃ b : UInt8, b.toNat = 0xf7 + (minimalBytes d.length).length ∧
      listItem d = b :: (minimalBytes d.length ++ d)) := by
  have hle := length_minimalBytes_le d.length
  unfold listItem listHeader
  split
  · next h => exact .inl ⟨h, _, toNat_ofNat_of_lt (by omega), rfl⟩
  · next h => exact .inr ⟨by omega, _, toNat_ofNat_of_lt (by omega), rfl⟩

theorem length_stringItem (d : Bytes) :
    d.length ≤ (stringItem d).length ∧ (stringItem d).length ≤ d.length + 9 := by
  have hle := length_minimalBytes_le d.length
  obtain ⟨b, rfl, -, he⟩ | ⟨-, b, -, he⟩ | ⟨-, b, -, he⟩ := stringItem_cases d
  all_goals
    simp only [he, length_cons, length_append]
    omega

theorem length_listItem (d : Bytes) :
    d.length < (listItem d).length ∧ (listItem d).length ≤ d.length + 9 := by
  have hle := length_minimalBytes_le d.length
  obtain ⟨-, b, -, he⟩ | ⟨-, b, -, he⟩ := listItem_cases d
  all_goals
    simp only [he, length_cons, length_append]
    omega

theorem isItem_stringItem (d : Bytes) : IsItem (stringItem d) := by
  obtain ⟨b, -, hb, he⟩ | ⟨hd, b, hb, he⟩ | ⟨hd, b, hb, he⟩ := stringItem_cases d
  · exact he ▸ (⟨by simp, fun hdata h => itemLength_eq hdata h (by simp [announcedLength, hb])⟩)
  · exact he ▸ isItem_short 0x80 hd hb (.inl rfl)
  · exact he ▸ isItem_long 0xb7 hd hb (.inl rfl)

theorem isItem_listItem (d : Bytes) : IsItem (listItem d) := by
  obtain ⟨hd, b, hb, he⟩ | ⟨hd, b, hb, he⟩ := listItem_cases d
  · exact he ▸ isItem_short 0xc0 hd hb (.inr rfl)
  · exact he ▸ isItem_long 0xf7 hd hb (.inr rfl)

/-! ## Payloads -/

theorem shortPayload_cons (b : UInt8) (d : Bytes) :
    shortPayload (b :: d) d.length = .ok (d, []) := by
  have h : ¬ 1 + d.length > (b :: d).length := by simp only [length_cons]; omega
  simp only [shortPayload, if_neg h, splitAt_add (Nat.not_lt.mp h), drop_succ_cons, drop_zero,
    take_length]
  rw [Nat.add_comm, drop_succ_cons, drop_length]

theorem longPayload_cons (hd : 55 < d.length)
    (hfit : (b :: (minimalBytes d.length ++ d)).length < usizeBound) :
    longPayload (b :: (minimalBytes d.length ++ d)) (minimalBytes d.length).length =
      .ok (d, []) := by
  simp only [length_cons, length_append] at hfit
  have hle : ¬ 1 + (minimalBytes d.length).length > (b :: (minimalBytes d.length ++ d)).length := by
    simp only [length_cons, length_append]
    omega
  have hend : 1 + (minimalBytes d.length).length + d.length =
      (b :: (minimalBytes d.length ++ d)).length := by
    simp only [length_cons, length_append]
    omega
  have hstop : checkedEnd (minimalBytes d.length).length d.length =
      .ok (1 + (minimalBytes d.length).length + d.length) := by
    rw [checkedEnd, if_pos (by omega)]
  have hpay : (b :: (minimalBytes d.length ++ d)).drop (1 + (minimalBytes d.length).length) = d := by
    rw [Nat.add_comm, drop_succ_cons, drop_left]
  have hn : d.length < usizeBound := by omega
  simp only [longPayload, if_neg hle, slice_add (Nat.not_lt.mp hle), drop_succ_cons, drop_zero,
    take_left, decodeLength_minimalBytes hn (by omega), ok_bind, hstop, if_neg hend.not_gt,
    splitAt_add hend.le, hpay, take_length]
  rw [hend, drop_length]

theorem listPayload_listItem (hfit : (listItem d).length < usizeBound) :
    listPayload (listItem d) = .ok (d, []) := by
  obtain ⟨hd, b, hb, he⟩ | ⟨hd, b, hb, he⟩ := listItem_cases d
  · have h₁ : ¬ b < 0xc0 := by grind
    have h₂ : b < 0xf8 := by grind
    rw [he]
    simp only [listPayload, if_neg h₁, if_pos h₂, hb, Nat.add_sub_cancel_left, shortPayload_cons]
  rw [he] at hfit ⊢
  have hn : d.length < usizeBound := by
    simp only [length_cons, length_append] at hfit
    omega
  have hpos := length_pos_iff.mpr (minimalBytes_ne_nil hn (by omega))
  have h₁ : ¬ b < 0xc0 := by grind
  have h₂ : ¬ b < 0xf8 := by grind
  simp only [listPayload, if_neg h₁, if_neg h₂, hb, Nat.add_sub_cancel_left,
    longPayload_cons hd hfit]

theorem asBytes_stringItem (hfit : (stringItem d).length < usizeBound) :
    asBytes (stringItem d) = .ok d := by
  obtain ⟨b, rfl, hb, he⟩ | ⟨hd, b, hb, he⟩ | ⟨hd, b, hb, he⟩ := stringItem_cases d
  · rw [he]
    simp only [asBytes, splitPayload, if_pos hb]
    rfl
  · have h₁ : ¬ b < 0x80 := by grind
    have h₂ : b < 0xb8 := by grind
    rw [he]
    simp only [asBytes, splitPayload, if_neg h₁, if_pos h₂, hb, Nat.add_sub_cancel_left,
      shortPayload_cons, ok_bind, pure_eq_ok]
  rw [he] at hfit ⊢
  have hlen := length_minimalBytes_le d.length
  have hn : d.length < usizeBound := by
    simp only [length_cons, length_append] at hfit
    omega
  have hpos := length_pos_iff.mpr (minimalBytes_ne_nil hn (by omega))
  have h₁ : ¬ b < 0x80 := by grind
  have h₂ : ¬ b < 0xb8 := by grind
  have h₃ : b < 0xc0 := by grind
  simp only [asBytes, splitPayload, if_neg h₁, if_neg h₂, if_pos h₃, hb,
    Nat.add_sub_cancel_left, longPayload_cons hd hfit, ok_bind, pure_eq_ok]

/-! ## Lists of items -/

theorem length_le_flatten (h : ∀ e ∈ items, IsItem e) : items.length ≤ items.flatten.length := by
  induction items with
  | nil => simp
  | cons e items ih =>
    have he := length_pos_iff.mpr (h e (by simp)).1
    have := ih fun x hx => h x (by simp [hx])
    simp only [length_cons, flatten_cons, length_append]
    omega

theorem scan_flatten {c : Nat} (hdata : data.length < usizeBound)
    (hitems : ∀ e ∈ items, IsItem e) (hdrop : data.drop pos = items.flatten)
    (hfuel : items.length ≤ fuel) : itemCountFrom fuel data pos c = .ok (c + items.length) ∧
      ∀ {n e}, items[n]? = some e → itemAtFrom fuel data pos n = .ok e := by
  induction items generalizing fuel pos c with
  | nil =>
    have hend : ¬ pos < data.length := by simpa using hdrop
    cases fuel with
    | zero => simp [itemCountFrom]
    | succ fuel => simp [itemCountFrom, hend]
  | cons d items ih =>
    obtain ⟨hd, hlen⟩ := hitems d (by simp)
    rw [flatten_cons] at hdrop
    have hfit := length_of_drop hd hdrop
    have hpos : pos < data.length := by
      have := length_pos_iff.mpr hd
      omega
    have hrest : data.drop (pos + d.length) = items.flatten := by
      rw [← drop_drop, hdrop, drop_left]
    cases fuel with
    | zero => simp at hfuel
    | succ fuel =>
      obtain ⟨hcount, hat⟩ := ih (c := c + 1) (fun x hx => hitems x (by simp [hx])) hrest
        (by simpa using hfuel)
      simp only [itemCountFrom, itemAtFrom, if_pos hpos, hlen hdata hdrop, ok_bind, hcount,
        length_cons]
      refine ⟨by rw [Nat.add_right_comm, Nat.add_assoc], ?_⟩
      rintro (- | n) e hget
      · obtain rfl : d = e := by simpa using hget
        show slice data pos (pos + d.length) = .ok d
        rw [slice_add (by omega), hdrop, take_left]
      · exact hat (by simpa using hget)

section

variable {items : List Bytes} (hitems : ∀ e ∈ items, IsItem e)
  (hfit : (listItem items.flatten).length < usizeBound)

include hfit

theorem flatten_fits : items.flatten.length < usizeBound := by
  simp only [listItem, length_append] at hfit
  omega

include hitems

theorem itemCount_listItem : itemCount (listItem items.flatten) = .ok items.length := by
  have hcount : itemCountFrom items.flatten.length items.flatten 0 0 = .ok (0 + items.length) :=
    (scan_flatten (flatten_fits hfit) hitems (by rw [drop_zero]) (length_le_flatten hitems)).1
  have hpay := listPayload_listItem hfit
  obtain ⟨hd, b, hb, he⟩ | ⟨hd, b, hb, he⟩ := listItem_cases items.flatten
  all_goals
    have h₁ : ¬ b < 0xc0 := by grind
    rw [he] at hpay ⊢
    simp only [itemCount, if_neg h₁, hpay, ok_bind, hcount, Nat.zero_add]

theorem itemAt_listItem {n : Nat} {e : Bytes} (hget : items[n]? = some e) :
    itemAt (listItem items.flatten) n = .ok e := by
  simp only [itemAt, listPayload_listItem hfit, ok_bind]
  exact (scan_flatten (c := 0) (flatten_fits hfit) hitems (by rw [drop_zero])
    (length_le_flatten hitems)).2 hget

end

theorem isList_listItem (d : Bytes) : isList (listItem d) = true := by
  obtain ⟨hd, b, hb, he⟩ | ⟨hd, b, hb, he⟩ := listItem_cases d <;> rw [he]
  · simp [isList, UInt8.le_iff_toNat_le, hb]
  · simp [isList, UInt8.le_iff_toNat_le, hb]
    omega

theorem isList_stringItem (d : Bytes) : isList (stringItem d) = false := by
  obtain ⟨b, -, hb, he⟩ | ⟨hd, b, hb, he⟩ | ⟨hd, b, hb, he⟩ := stringItem_cases d
  · rw [UInt8.lt_iff_toNat_lt] at hb
    rw [he]
    simp [isList, UInt8.lt_iff_toNat_lt] at hb ⊢
    omega
  · rw [he]
    simp [isList, UInt8.lt_iff_toNat_lt, hb]
    omega
  have hle := length_minimalBytes_le d.length
  rw [he]
  simp [isList, UInt8.lt_iff_toNat_lt, hb]
  omega

/-! ## Arbitrary data -/

variable {count len : Nat} {p : Bytes × Bytes}

theorem checkedEnd_eq_ok {lenBytes stop : Nat} (h : checkedEnd lenBytes len = .ok stop) :
    stop = 1 + lenBytes + len := by
  simp only [checkedEnd] at h
  grind

theorem longItemLength_pos {lenBytes : Nat} (h : longItemLength data pos lenBytes = .ok len) :
    0 < len := by
  simp only [longItemLength, throw_eq_error] at h
  split at h
  · cases h
  obtain ⟨_, -, h⟩ := bind_eq_ok.mp h
  obtain ⟨_, -, h⟩ := bind_eq_ok.mp h
  have := checkedEnd_eq_ok h
  omega

theorem announcedLength_pos (h : announcedLength data pos b = .ok len) : 0 < len := by
  unfold announcedLength at h
  repeat' split at h
  all_goals first
    | exact longItemLength_pos h
    | injection h; omega

theorem itemLength_bounds (h : itemLength data pos = .ok len) :
    0 < len ∧ pos + len ≤ data.length := by
  unfold itemLength at h
  split at h
  · cases h
  obtain ⟨itemLen, hlen, h⟩ := bind_eq_ok.mp h
  have hpos := announcedLength_pos hlen
  simp only [throw_eq_error, error_bind, pure_eq_ok] at h
  grind

theorem slice_eq_ok {stop : Nat} (h : slice data pos stop = .ok e) :
    pos ≤ stop ∧ stop ≤ data.length ∧ e = (data.drop pos).take (stop - pos) := by
  unfold slice at h
  split at h
  next hrange =>
    cases h
    exact ⟨hrange.1, hrange.2, rfl⟩
  · cases h

theorem splitAt_split {stop : Nat} (h : splitAt data pos stop = .ok p) :
    data = data.take pos ++ p.1 ++ p.2 := by
  obtain ⟨payload, hpayload, h⟩ := bind_eq_ok.mp h
  obtain ⟨rest, hrest, h⟩ := bind_eq_ok.mp h
  cases h
  obtain ⟨hstart, -, rfl⟩ := slice_eq_ok hpayload
  obtain ⟨-, -, rfl⟩ := slice_eq_ok hrest
  have hall : (data.drop stop).take (data.length - stop) = data.drop stop :=
    take_of_length_le (by rw [length_drop])
  have hdrop : data.drop stop = (data.drop pos).drop (stop - pos) := by
    rw [drop_drop, Nat.add_sub_cancel' hstart]
  show data = data.take pos ++ _ ++ _
  rw [hall, hdrop, append_assoc, take_append_drop, take_append_drop]

theorem header_of_splitAt {stop : Nat} (hpos : 0 < pos) (h : splitAt data pos stop = .ok p)
    (hne : data ≠ []) : ∃ header, header ≠ [] ∧ data = header ++ p.1 ++ p.2 := by
  refine ⟨data.take pos, ne_nil_of_length_pos ?_, splitAt_split h⟩
  have := length_pos_iff.mpr hne
  rw [length_take]
  omega

theorem shortPayload_split (h : shortPayload data n = .ok p) (hne : data ≠ []) :
    ∃ header, header ≠ [] ∧ data = header ++ p.1 ++ p.2 := by
  unfold shortPayload at h
  split at h
  · cases h
  · exact header_of_splitAt Nat.one_pos h hne

theorem longPayload_split (h : longPayload data n = .ok p) (hne : data ≠ []) :
    ∃ header, header ≠ [] ∧ data = header ++ p.1 ++ p.2 := by
  simp only [longPayload, throw_eq_error, error_bind] at h
  split at h
  · cases h
  obtain ⟨_, -, h⟩ := bind_eq_ok.mp h
  obtain ⟨_, -, h⟩ := bind_eq_ok.mp h
  obtain ⟨stop, -, h⟩ := bind_eq_ok.mp h
  split at h
  · cases h
  · exact header_of_splitAt (by omega) h hne

theorem listPayload_split (h : listPayload data = .ok p) (hne : data ≠ []) :
    ∃ header, header ≠ [] ∧ data = header ++ p.1 ++ p.2 := by
  unfold listPayload at h
  grind [shortPayload_split, longPayload_split]

theorem splitPayload_split (h : splitPayload data = .ok p) :
    ∃ header, data = header ++ p.1 ++ p.2 := by
  unfold splitPayload at h
  split at h
  · cases h
  repeat' split at h
  · exact ⟨_, splitAt_split h⟩
  · exact (shortPayload_split h (cons_ne_nil _ _)).imp fun _ h => h.2
  · exact (longPayload_split h (cons_ne_nil _ _)).imp fun _ h => h.2
  · cases h

/-! ### No panics -/

def Quiet {ε α : Type} (x : Except (Fault ε) α) : Prop := x ≠ .error .panic

section

variable {ε α β : Type} {x : Except (Fault ε) α} {f : α → Except (Fault ε) β}

theorem quiet_ok (a : α) : Quiet (.ok a : Except (Fault ε) α) := nofun

theorem quiet_err (e : ε) : Quiet (.error (.err e) : Except (Fault ε) α) := nofun

theorem Quiet.bind (hx : Quiet x) (hf : ∀ a, x = .ok a → Quiet (f a)) : Quiet (x >>= f) := by
  cases x with
  | ok a => exact hf a rfl
  | error e => exact fun h => hx (by cases h; rfl)

end

theorem checkedEnd_quiet (lenBytes len : Nat) : Quiet (checkedEnd lenBytes len) := by
  unfold checkedEnd
  split
  · exact quiet_ok _
  · exact quiet_err _

theorem decodeLength_quiet (bytes : Bytes) : Quiet (decodeLength bytes) := by
  unfold decodeLength
  split
  · exact quiet_err _
  split
  · exact quiet_err _
  · exact quiet_ok _

theorem slice_quiet {stop : Nat} (h : pos ≤ stop) (h' : stop ≤ data.length) :
    Quiet (slice data pos stop) := by
  rw [slice, if_pos ⟨h, h'⟩]
  exact quiet_ok _

theorem splitAt_quiet {stop : Nat} (h : pos ≤ stop) (h' : stop ≤ data.length) :
    Quiet (splitAt data pos stop) :=
  (slice_quiet h h').bind fun _ _ => (slice_quiet h' (le_refl _)).bind fun _ _ => quiet_ok _

theorem longItemLength_quiet (data : Bytes) (pos lenBytes : Nat) :
    Quiet (longItemLength data pos lenBytes) := by
  simp only [longItemLength, throw_eq_error, error_bind]
  split
  · exact quiet_err _
  refine (slice_quiet (by omega) (by omega)).bind fun bytes _ => ?_
  exact (decodeLength_quiet bytes).bind fun len _ => checkedEnd_quiet _ len

theorem announcedLength_quiet (data : Bytes) (pos : Nat) (b : UInt8) :
    Quiet (announcedLength data pos b) := by
  unfold announcedLength
  repeat' split
  all_goals first
    | exact longItemLength_quiet _ _ _
    | exact quiet_ok _

theorem itemLength_quiet (data : Bytes) (pos : Nat) : Quiet (itemLength data pos) := by
  unfold itemLength
  split
  · exact quiet_err _
  refine (announcedLength_quiet _ _ _).bind fun len _ => ?_
  simp only [throw_eq_error, error_bind, pure_eq_ok]
  repeat' split
  all_goals first
    | exact quiet_ok _
    | exact quiet_err _

theorem shortPayload_quiet (data : Bytes) (n : Nat) : Quiet (shortPayload data n) := by
  unfold shortPayload
  split
  · exact quiet_err _
  · exact splitAt_quiet (by omega) (by omega)

theorem longPayload_quiet (data : Bytes) (n : Nat) : Quiet (longPayload data n) := by
  simp only [longPayload, throw_eq_error, error_bind]
  split
  · exact quiet_err _
  refine (slice_quiet (by omega) (by omega)).bind fun bytes _ => ?_
  refine (decodeLength_quiet bytes).bind fun len _ => ?_
  refine (checkedEnd_quiet _ len).bind fun stop hstop => ?_
  have := checkedEnd_eq_ok hstop
  split
  · exact quiet_err _
  · exact splitAt_quiet (by omega) (by omega)

theorem listPayload_quiet (data : Bytes) : Quiet (listPayload data) := by
  unfold listPayload
  split
  · exact quiet_ok _
  repeat' split
  · exact quiet_err _
  · exact shortPayload_quiet _ _
  · exact longPayload_quiet _ _

theorem splitPayload_quiet (data : Bytes) : Quiet (splitPayload data) := by
  cases data with
  | nil => exact quiet_err _
  | cons b rest =>
    rw [splitPayload]
    split
    · exact splitAt_quiet (Nat.zero_le _) (by rw [length_cons]; omega)
    split
    · exact shortPayload_quiet _ _
    split
    · exact longPayload_quiet _ _
    · exact quiet_err _

theorem asBytes_quiet (data : Bytes) : Quiet (asBytes data) :=
  (splitPayload_quiet data).bind fun _ _ => quiet_ok _

theorem scan_quiet (fuel : Nat) (data : Bytes) (pos count n : Nat) :
    Quiet (itemCountFrom fuel data pos count) ∧ Quiet (itemAtFrom fuel data pos n) := by
  induction fuel generalizing pos count n with
  | zero => exact ⟨quiet_ok _, quiet_err _⟩
  | succ fuel ih =>
    unfold itemCountFrom itemAtFrom
    split
    · refine ⟨(itemLength_quiet data pos).bind fun len _ => (ih _ _ n).1,
        (itemLength_quiet data pos).bind fun len hlen => ?_⟩
      cases n with
      | zero => exact slice_quiet (by omega) (itemLength_bounds hlen).2
      | succ n => exact (ih _ count n).2
    · exact ⟨quiet_ok _, quiet_err _⟩

theorem itemCount_quiet (data : Bytes) : Quiet (itemCount data) := by
  unfold itemCount
  split
  · exact quiet_ok _
  split
  · exact quiet_ok _
  · exact (listPayload_quiet _).bind fun _ _ => (scan_quiet _ _ _ _ 0).1

theorem itemAt_quiet (data : Bytes) (n : Nat) : Quiet (itemAt data n) :=
  (listPayload_quiet data).bind fun _ _ => (scan_quiet _ _ _ 0 n).2

theorem valAt_quiet (data : Bytes) (n : Nat) : Quiet (valAt data n) :=
  (itemAt_quiet data n).bind fun item _ => asBytes_quiet item

/-! ### The two loops -/

theorem scan_fuel (h : data.length ≤ pos + fuel) (more : Nat) :
    itemCountFrom (fuel + more) data pos count = itemCountFrom fuel data pos count ∧
    itemAtFrom (fuel + more) data pos n = itemAtFrom fuel data pos n := by
  induction fuel generalizing pos count n with
  | zero =>
    cases more <;> simp [itemCountFrom, itemAtFrom]; omega
  | succ fuel ih =>
    rw [Nat.add_right_comm]
    simp only [itemCountFrom, itemAtFrom]
    split
    · cases hlen : itemLength data pos with
      | error e => simp
      | ok len =>
        have := (itemLength_bounds hlen).1
        simp only [ok_bind]
        cases n with
        | zero => exact ⟨(ih (n := 0) (by omega)).1, rfl⟩
        | succ n => exact ih (by omega)
    · simp

theorem scan_eq (hfuel : data.length ≤ pos + fuel) (h : itemCountFrom fuel data pos count = .ok n) :
    ∃ items : List Bytes, n = count + items.length ∧ data.drop pos = items.flatten ∧
      ∀ i, itemAtFrom fuel data pos i = items[i]?.elim (.error (.err .itemCountMismatch)) .ok := by
  induction fuel generalizing pos count with
  | zero =>
    cases h
    exact ⟨[], rfl, by simp; omega, fun i => rfl⟩
  | succ fuel ih =>
    simp only [itemCountFrom, itemAtFrom] at h ⊢
    split at h
    next hlt =>
      obtain ⟨len, hlen, h⟩ := bind_eq_ok.mp h
      have hb := itemLength_bounds hlen
      obtain ⟨items, hn, hflat, hat⟩ := ih (by omega) h
      refine ⟨(data.drop pos).take len :: items, by simp; omega, ?_, ?_⟩
      · rw [flatten_cons, ← hflat, ← drop_drop, take_append_drop]
      intro i
      rw [if_pos hlt, hlen]
      cases i with
      | zero => exact slice_add hb.2
      | succ i => exact hat i
    next hend =>
      cases h
      exact ⟨[], rfl, by simp; omega, fun i => if_neg hend⟩

theorem itemAtFrom_length_le {item : Bytes} (h : itemAtFrom fuel data pos n = .ok item) :
    item.length ≤ data.length := by
  induction fuel generalizing pos n with
  | zero => cases h
  | succ fuel ih =>
    unfold itemAtFrom at h
    split at h
    · obtain ⟨len, -, h⟩ := bind_eq_ok.mp h
      cases n with
      | zero =>
        obtain ⟨-, -, rfl⟩ := slice_eq_ok h
        rw [length_take, length_drop]
        omega
      | succ n => exact ih h
    · cases h

theorem itemAt_length_lt {item : Bytes} (h : itemAt data n = .ok item) :
    item.length < data.length := by
  obtain ⟨⟨payload, rest⟩, hp, h⟩ := bind_eq_ok.mp h
  have hle := itemAtFrom_length_le h
  by_cases hne : data = []
  · subst hne
    cases hp
    cases h
  obtain ⟨header, hh, rfl⟩ := listPayload_split hp hne
  have := length_pos_iff.mpr hh
  simp only [length_append]
  omega

/-- On any data the decoder does not panic, its loops end, every slice is within the data, and a
list is split into its items without a gap. -/
theorem decoding_stays_in_bounds (data : Bytes) :
    (Quiet (itemCount data) ∧ Quiet (asBytes data) ∧ ∀ n, Quiet (itemAt data n)) ∧
    (∀ pos len, itemLength data pos = .ok len → 0 < len ∧ pos + len ≤ data.length) ∧
    (∀ payload rest, splitPayload data = .ok (payload, rest) ∨
      listPayload data = .ok (payload, rest) → ∃ header, data = header ++ payload ++ rest) ∧
    (∀ n fuel, data.length ≤ fuel →
      itemCountFrom fuel data 0 0 = itemCountFrom data.length data 0 0 ∧
      itemAtFrom fuel data 0 n = itemAtFrom data.length data 0 n) ∧
    ∀ n, isList data = true → itemCount data = .ok n →
      ∃ (items : List Bytes) (rest : Bytes), items.length = n ∧
        listPayload data = .ok (items.flatten, rest) ∧
        ∀ i, itemAt data i = items[i]?.elim (.error (.err .itemCountMismatch)) .ok := by
  refine ⟨⟨itemCount_quiet data, asBytes_quiet data, itemAt_quiet data⟩,
    fun pos len => itemLength_bounds, ?_, ?_, ?_⟩
  · rintro payload rest (h | h)
    · exact splitPayload_split h
    by_cases hne : data = []
    · subst hne
      cases h
      exact ⟨[], rfl⟩
    · exact (listPayload_split h hne).imp fun _ h => h.2
  · intro n fuel hle
    obtain ⟨more, rfl⟩ := Nat.exists_eq_add_of_le hle
    exact scan_fuel (by omega) more
  intro n hlist h
  cases data with
  | nil => cases hlist
  | cons b tail =>
    have hb : ¬ b < 0xc0 := by simpa [isList] using hlist
    simp only [itemCount, if_neg hb] at h
    obtain ⟨⟨payload, rest⟩, hp, h⟩ := bind_eq_ok.mp h
    obtain ⟨items, hn, rfl, hat⟩ := scan_eq (by omega) h
    simp only [itemAt, hp, ok_bind]
    exact ⟨items, rest, by omega, rfl, hat⟩

theorem two_items_split : itemCount [0xc2, 0x80, 5] = .ok 2 ∧ ∃ (items : List Bytes) (rest : Bytes),
    items.length = 2 ∧ listPayload [0xc2, 0x80, 5] = .ok (items.flatten, rest) ∧
      ∀ i, itemAt [0xc2, 0x80, 5] i = items[i]?.elim (.error (.err .itemCountMismatch)) .ok :=
  ⟨by decide, (decoding_stays_in_bounds _).2.2.2.2 2 (by decide) (by decide)⟩

end ZbxChain.Rlp
