import ZbxChain.Trie.Node

/-!
# Complete headers

`BlockHeader` of `zbx-types/src/block.rs` with all its fields, the encoding that is hashed, and the
checks of a block against its parent. Execution reads only the part that `BlockHeader` has here.
-/

namespace ZbxChain

open List Option H256

structure SealedHeader extends BlockHeader where
  parentHash : H256
  uncleHash : H256
  transactionsRoot : H256
  receiptsRoot : H256
  logsBloom : BitVec 2048
  difficulty : U256
  extraData : Bytes
  nonce : UInt64
  committeeSignature : Bytes
  epoch : UInt64
  epochSeed : Option H256
  deriving DecidableEq

structure SealedBlock where
  header : SealedHeader
  transactions : List SignedTransaction
  deriving DecidableEq

def SealedBlock.toBlock (block : SealedBlock) : Block := ⟨block.header.toBlockHeader, block.transactions⟩

/-- The variant of `ZbxError` that the checks raise. -/
inductive ZbxError where
  | consensus (msg : String)
  deriving DecidableEq

/-! ## The EIP-1559 base fee -/

/-- `none` is the division by a target of zero. The products fit in a `u128`; the result is
cut to a `u64`. -/
def computeEip1559BaseFee (parentBase gasUsed gasLimit : UInt64) : Option UInt64 :=
  let base := parentBase.toNat
  let used := gasUsed.toNat
  let target := gasLimit.toNat / 2
  let adj := base / 8
  if gasLimit = 0 then some parentBase
  else if used = target then some parentBase
  else if target = 0 then none
  else if target < used then
    some (.ofNat (base + min (max (base * (used - target) / target) 1) adj))
  else some (.ofNat (base - min (base * (target - used) / target) adj))

namespace SealedHeader

/-! ## Hashing -/

def encodeSeed : Option H256 → Bytes
  | none => [0]
  | some seed => 1 :: seed.toBytes

def canonicalEncode (h : SealedHeader) : Bytes :=
  h.parentHash.toBytes ++ h.uncleHash.toBytes ++ h.coinbase.toBytes ++ h.stateRoot.toBytes ++
    h.transactionsRoot.toBytes ++ h.receiptsRoot.toBytes ++ beBytes 256 h.logsBloom.toNat ++
    toBytes h.difficulty ++ beBytes 8 h.number.toNat ++ beBytes 8 h.gasLimit.toNat ++
    beBytes 8 h.gasUsed.toNat ++ beBytes 8 h.timestamp.toNat ++
    beBytes 4 h.extraData.length ++ h.extraData ++ h.mixHash.toBytes ++
    beBytes 8 h.nonce.toNat ++ beBytes 8 h.baseFeePerGas.toNat ++ beBytes 8 h.epoch.toNat ++
    encodeSeed h.epochSeed

def hash (h : SealedHeader) : H256 := keccak256 h.canonicalEncode

def encodeRest (h : SealedHeader) : Bytes :=
  beBytes 4 h.extraData.length ++ (h.extraData ++ (h.mixHash.toBytes ++ (beBytes 8 h.nonce.toNat ++
    (beBytes 8 h.baseFeePerGas.toNat ++ (beBytes 8 h.epoch.toNat ++ encodeSeed h.epochSeed)))))

section

variable {h h' : SealedHeader}

theorem fields_of_canonicalEncode (heq : h.canonicalEncode = h'.canonicalEncode) :
    h.parentHash = h'.parentHash ∧ h.stateRoot = h'.stateRoot ∧
      h.transactionsRoot = h'.transactionsRoot ∧ h.receiptsRoot = h'.receiptsRoot ∧
      h.number = h'.number ∧ h.timestamp = h'.timestamp ∧ h.uncleHash = h'.uncleHash ∧
      h.coinbase = h'.coinbase ∧ h.logsBloom = h'.logsBloom ∧ h.difficulty = h'.difficulty ∧
      h.gasLimit = h'.gasLimit ∧ h.gasUsed = h'.gasUsed ∧ h.encodeRest = h'.encodeRest := by
  unfold canonicalEncode at heq
  simp only [append_assoc] at heq
  obtain ⟨hparent, heq⟩ := append_inj heq (by simp)
  obtain ⟨huncle, heq⟩ := append_inj heq (by simp)
  obtain ⟨hcoinbase, heq⟩ := append_inj heq (by simp)
  obtain ⟨hstate, heq⟩ := append_inj heq (by simp)
  obtain ⟨htxs, heq⟩ := append_inj heq (by simp)
  obtain ⟨hreceipts, heq⟩ := append_inj heq (by simp)
  obtain ⟨hbloom, heq⟩ := append_inj heq (by simp)
  obtain ⟨hdifficulty, heq⟩ := append_inj heq (by simp)
  obtain ⟨hnumber, heq⟩ := append_inj heq (by simp)
  obtain ⟨hlimit, heq⟩ := append_inj heq (by simp)
  obtain ⟨hused, heq⟩ := append_inj heq (by simp)
  obtain ⟨htimestamp, heq⟩ := append_inj heq (by simp)
  exact ⟨toBytes_injective hparent, toBytes_injective hstate,
    toBytes_injective htxs, toBytes_injective hreceipts, beBytes_toNat_inj hnumber,
    beBytes_toNat_inj htimestamp, toBytes_injective huncle,
    Address.toBytes_injective hcoinbase, beBytes_bitVec_inj hbloom, toBytes_injective hdifficulty,
    beBytes_toNat_inj hlimit, beBytes_toNat_inj hused, heq⟩

theorem encodeSeed_injective : Function.Injective encodeSeed
  | none, none, _ => rfl
  | none, some _, heq => absurd (cons.inj heq).1 (by decide)
  | some _, none, heq => absurd (cons.inj heq).1 (by decide)
  | some _, some _, heq => congrArg some (toBytes_injective (cons.inj heq).2)

theorem fields_of_encodeRest (hlen : h.extraData.length < 2 ^ 32)
    (hlen' : h'.extraData.length < 2 ^ 32) (heq : h.encodeRest = h'.encodeRest) :
    h.extraData = h'.extraData ∧ h.mixHash = h'.mixHash ∧ h.nonce = h'.nonce ∧
      h.baseFeePerGas = h'.baseFeePerGas ∧ h.epoch = h'.epoch ∧ h.epochSeed = h'.epochSeed := by
  -- the length says where the extra data ends
  obtain ⟨hlength, heq⟩ := append_inj heq (by simp)
  obtain ⟨hextra, heq⟩ := append_inj heq (beBytes_inj hlen hlen' hlength)
  obtain ⟨hmix, heq⟩ := append_inj heq (by simp)
  obtain ⟨hnonce, heq⟩ := append_inj heq (by simp)
  obtain ⟨hfee, heq⟩ := append_inj heq (by simp)
  obtain ⟨hepoch, heq⟩ := append_inj heq (by simp)
  exact ⟨hextra, toBytes_injective hmix, beBytes_toNat_inj hnonce, beBytes_toNat_inj hfee,
    beBytes_toNat_inj hepoch, encodeSeed_injective heq⟩

end

def unsigned (h : SealedHeader) : SealedHeader := { h with committeeSignature := [] }

/-- The encoding has every field but the committee's signature, and without collisions so has
the hash. -/
theorem canonicalEncode_binds (h h' : SealedHeader) (hlen : h.extraData.length < 2 ^ 32)
    (hlen' : h'.extraData.length < 2 ^ 32) :
    (h.canonicalEncode = h'.canonicalEncode ↔ h.unsigned = h'.unsigned) ∧
      (CollisionFree {h.canonicalEncode, h'.canonicalEncode} →
        (h.hash = h'.hash ↔ h.unsigned = h'.unsigned)) := by
  have hiff : h.canonicalEncode = h'.canonicalEncode ↔ h.unsigned = h'.unsigned := by
    constructor
    · intro heq
      obtain ⟨hparent, hstate, htxs, hreceipts, hnumber, htimestamp, huncle, hcoinbase, hbloom,
        hdifficulty, hlimit, hused, hrest⟩ := fields_of_canonicalEncode heq
      obtain ⟨hextra, hmix, hnonce, hfee, hepoch, hseed⟩ := fields_of_encodeRest hlen hlen' hrest
      obtain ⟨⟨⟩⟩ := h
      obtain ⟨⟨⟩⟩ := h'
      simp_all [unsigned]
    intro heq
    have hencode : h.unsigned.canonicalEncode = h'.unsigned.canonicalEncode := by rw [heq]
    exact hencode
  refine ⟨hiff, fun hfree => ⟨fun hhash => hiff.mp ?_, fun heq => ?_⟩⟩
  · exact hfree.eq (Set.mem_insert _ _) (Set.mem_insert_of_mem _ rfl) hhash
  · exact congrArg keccak256 (hiff.mpr heq)

def blank (extraData : Bytes) : SealedHeader :=
  { Block.first [] |>.header with
    parentHash := 0, uncleHash := 0, transactionsRoot := 0, receiptsRoot := 0, logsBloom := 0,
    difficulty := 1, extraData, nonce := 0, committeeSignature := [], epoch := 0
    epochSeed := none }

theorem canonicalEncode_blank_ne :
    (blank [1]).canonicalEncode ≠ (blank [1, 0]).canonicalEncode := by
  intro heq
  have hsame := (canonicalEncode_binds (blank [1]) (blank [1, 0]) (by decide) (by decide)).1.mp heq
  have hextra : ([1] : Bytes) = [1, 0] := congrArg extraData hsame
  exact absurd hextra (by decide)

/-! ## Checks against the parent -/

variable (h parent : SealedHeader)

def checkBaseFee : Except (Fault ZbxError) Unit :=
  if 0 < parent.number ∨ 0 < parent.baseFeePerGas then
    match computeEip1559BaseFee parent.baseFeePerGas parent.gasUsed parent.gasLimit with
    | none => .error .panic
    | some expected =>
      if h.baseFeePerGas ≠ expected then
        .error (.err (.consensus ("base_fee_per_gas mismatch at block " ++ toString h.number ++
          ": expected " ++ toString expected ++ ", got " ++ toString h.baseFeePerGas)))
      else .ok ()
  else .ok ()

def validateAgainstParent : Except (Fault ZbxError) Unit :=
  if h.parentHash ≠ parent.hash then
    .error (.err (.consensus ("block " ++ toString h.number ++ " parent_hash mismatch")))
  else if h.number ≠ parent.number + 1 then
    .error (.err (.consensus ("block number gap: expected " ++ toString (parent.number + 1) ++
      ", got " ++ toString h.number)))
  else if h.timestamp ≤ parent.timestamp then
    .error (.err (.consensus "block timestamp must be strictly increasing"))
  else if h.gasLimit < h.gasUsed then
    .error (.err (.consensus ("gas_used " ++ toString h.gasUsed ++ " exceeds gas_limit " ++
      toString h.gasLimit)))
  else if blockGasLimit < h.gasLimit.toNat then
    .error (.err (.consensus "block gas_limit exceeds protocol maximum"))
  else if 32 < h.extraData.length then
    .error (.err (.consensus ("extra_data too long: " ++ toString h.extraData.length ++
      " bytes (max 32)")))
  else h.checkBaseFee parent

/-! ## What the checks ask for -/

def FeeFollows : Prop :=
  (parent.number = 0 ∧ parent.baseFeePerGas = 0) ∨
    computeEip1559BaseFee parent.baseFeePerGas parent.gasUsed parent.gasLimit =
      some h.baseFeePerGas

theorem checkBaseFee_ok : h.checkBaseFee parent = .ok () ↔ h.FeeFollows parent := by
  have hguard : (0 < parent.number ∨ 0 < parent.baseFeePerGas) ↔
      ¬ (parent.number = 0 ∧ parent.baseFeePerGas = 0) := by
    rw [not_and_or, UInt64.pos_iff_ne_zero, UInt64.pos_iff_ne_zero]
  unfold checkBaseFee FeeFollows
  by_cases hzero : parent.number = 0 ∧ parent.baseFeePerGas = 0
  · rw [if_neg (fun hg => hguard.mp hg hzero)]
    exact ⟨fun _ => .inl hzero, fun _ => rfl⟩
  rw [if_pos (hguard.mpr hzero)]
  cases hfee : computeEip1559BaseFee parent.baseFeePerGas parent.gasUsed parent.gasLimit with
  | none => simp [hzero]
  | some expected =>
    dsimp only
    by_cases heq : h.baseFeePerGas = expected
    · rw [if_neg (not_not_intro heq)]
      exact ⟨fun _ => .inr (by rw [heq]), fun _ => rfl⟩
    rw [if_pos heq]
    refine ⟨nofun, fun hok => ?_⟩
    rcases hok with hz | hs
    · exact absurd hz hzero
    · exact absurd (some.inj hs).symm heq

structure ValidChild (h parent : SealedHeader) : Prop where
  parentHash : h.parentHash = parent.hash
  number : h.number = parent.number + 1
  timestamp : parent.timestamp < h.timestamp
  gasUsed : h.gasUsed ≤ h.gasLimit
  gasLimit : h.gasLimit.toNat ≤ blockGasLimit
  extraData : h.extraData.length ≤ 32
  baseFee : h.FeeFollows parent

theorem validateAgainstParent_ok :
    h.validateAgainstParent parent = .ok () ↔ h.ValidChild parent := by
  simp only [validateAgainstParent, ite_error_eq_ok, checkBaseFee_ok, not_not, UInt64.not_le,
    UInt64.not_lt, Nat.not_lt]
  constructor
  all_goals
    rintro ⟨hhash, hnumber, htime, hused, hlimit, hextra, hfee⟩
    exact ⟨hhash, hnumber, htime, hused, hlimit, hextra, hfee⟩

end SealedHeader

/-! ## When the fee does not move -/

/-- The fee formula leaves a positive fee where it is: no gas limit, gas used exactly at the
target, or a step that rounds to nothing. -/
def FeeSteady (base used limit : Nat) : Prop :=
  limit = 0 ∨ used = limit / 2 ∨
    (limit ≠ 1 ∧ (base < 8 ∨ (used < limit / 2 ∧ base * (limit / 2 - used) < limit / 2)))

variable (base used limit : UInt64)

theorem computeEip1559BaseFee_steady : computeEip1559BaseFee base used limit = some base ↔
      FeeSteady base.toNat used.toNat limit.toNat := by
  have hbase := base.toNat_lt
  have hlimit : limit = 0 ↔ limit.toNat = 0 := UInt64.toNat_inj.symm
  unfold computeEip1559BaseFee FeeSteady
  simp only [hlimit]
  split_ifs with hzero htarget hpanic hup
  · simp only [hzero, true_or]
  · simp only [htarget, true_or, or_true]
  · simp only [false_iff]
    omega
  · -- the sum may be cut to 64 bits, but never back to the old fee
    rw [some.injEq, ← UInt64.toNat_inj, UInt64.toNat_ofNat']
    generalize base.toNat * (used.toNat - limit.toNat / 2) / (limit.toNat / 2) = rise
    generalize hstep : min (max rise 1) (base.toNat / 8) = step
    omega
  have hcut := Nat.div_eq_zero_iff_lt (x := base.toNat * (limit.toNat / 2 - used.toNat))
    (Nat.pos_of_ne_zero hpanic)
  rw [some.injEq, ← UInt64.toNat_inj, UInt64.toNat_ofNat', ← hcut]
  generalize base.toNat * (limit.toNat / 2 - used.toNat) / (limit.toNat / 2) = cut
  generalize hstep : min cut (base.toNat / 8) = step
  omega

theorem computeEip1559BaseFee_zero (used limit : UInt64) :
    computeEip1559BaseFee 0 used limit ≠ some 1 := by
  unfold computeEip1559BaseFee
  dsimp only
  split_ifs <;> simp

theorem computeEip1559BaseFee_carried : computeEip1559BaseFee base used limit = some (max base 1) ↔
      0 < base ∧ FeeSteady base.toNat used.toNat limit.toNat := by
  by_cases hbase : base = 0
  · subst hbase
    exact ⟨fun h => absurd h (computeEip1559BaseFee_zero used limit),
      fun h => absurd h.1 (UInt64.lt_irrefl 0)⟩
  have hpos : 0 < base := UInt64.pos_iff_ne_zero.mpr hbase
  have hmax : max base 1 = base := by
    show (if base ≤ 1 then 1 else base) = base
    split
    · rename_i hle
      have hnat := UInt64.le_iff_toNat_le.mp hle
      have hpos' := UInt64.lt_iff_toNat_lt.mp hpos
      exact UInt64.toNat_inj.mp (Nat.le_antisymm hpos' hnat)
    · rfl
  rw [hmax, computeEip1559BaseFee_steady]
  exact (and_iff_right hpos).symm

/-! ## The rule of EIP-1559 -/

/-- The fee that EIP-1559 asks for after a block with the target `limit / 2`. -/
def FeeRule (base used limit fee : Nat) : Prop :=
  (used = limit / 2 → fee = base) ∧
    (limit / 2 < used → 0 < limit / 2 →
      fee = base + max (base * (used - limit / 2) / (limit / 2) / 8) 1) ∧
    (used < limit / 2 → fee = base - base * (limit / 2 - used) / (limit / 2) / 8)

def FeeMeetsRule : Prop :=
  ∃ fee, computeEip1559BaseFee base used limit = some fee ∧ 1 ≤ fee.toNat ∧
    FeeRule base.toNat used.toNat limit.toNat fee.toNat

/-- The code moves the fee by the whole distance, up to an eighth of the fee. This is the eighth
of the distance when both round to the same. -/
def FeeExact (base used limit : Nat) : Prop :=
  let rise := base * (used - limit / 2) / (limit / 2)
  let cut := base * (limit / 2 - used) / (limit / 2)
  1 ≤ base ∧ (limit = 0 ∨ used = limit / 2 ∨
    (0 < limit / 2 ∧ limit / 2 < used ∧ 8 ≤ base ∧ (rise ≤ 1 ∨ base / 8 = max (rise / 8) 1) ∧
      base + max (rise / 8) 1 < 2 ^ 64) ∨
    (used < limit / 2 ∧ (cut = 0 ∨ base / 8 = cut / 8)))

theorem feeMeetsRule_iff :
    FeeMeetsRule base used limit ↔ FeeExact base.toNat used.toNat limit.toNat := by
  have hbase := base.toNat_lt
  have hlimit : limit = 0 ↔ limit.toNat = 0 := by rw [← UInt64.toNat_inj]; rfl
  unfold FeeMeetsRule FeeExact FeeRule computeEip1559BaseFee
  simp only [hlimit]
  generalize base.toNat * (used.toNat - limit.toNat / 2) / (limit.toNat / 2) = rise
  have hcut : base.toNat * (limit.toNat / 2 - used.toNat) / (limit.toNat / 2) ≤ base.toNat :=
    Nat.div_le_of_le_mul (by rw [Nat.mul_comm (_ / 2)]; exact Nat.mul_le_mul_left _ (Nat.sub_le _ _))
  generalize base.toNat * (limit.toNat / 2 - used.toNat) / (limit.toNat / 2) = cut at hcut ⊢
  split_ifs with hzero htarget hpanic hup
  · simp only [some.injEq, exists_eq_left', implies_true, true_and]
    omega
  · simp only [some.injEq, exists_eq_left', implies_true, true_and]
    omega
  · simp only [false_and, exists_false, false_iff]
    omega
  · simp only [some.injEq, exists_eq_left', UInt64.toNat_ofNat', hzero, htarget, hup,
      Nat.lt_asymm hup, Nat.pos_of_ne_zero hpanic, false_or, or_false, false_and, true_and,
      and_true, forall_const, false_imp_iff]
    generalize hstep : min (max rise 1) (base.toNat / 8) = step
    rcases Nat.lt_or_ge (base.toNat + step) (2 ^ 64) with hfits | hwraps
    · rw [Nat.mod_eq_of_lt hfits]
      omega
    · omega
  · simp only [some.injEq, exists_eq_left', UInt64.toNat_ofNat']
    generalize hstep : min cut (base.toNat / 8) = step
    rw [Nat.mod_eq_of_lt (by omega)]
    omega

/-- A fifth above the target the fee rises by an eighth and not by a fortieth, a fee of 7 does
not rise, a fee of 0 stays, and a limit of 1 has the target 0. -/
theorem fee_breaks_rule :
    computeEip1559BaseFee 1000 60 100 = some 1125 ∧ ¬ FeeRule 1000 60 100 1125 ∧
      FeeRule 1000 60 100 1025 ∧ computeEip1559BaseFee 7 60 100 = some 7 ∧
      ¬ FeeRule 7 60 100 7 ∧ computeEip1559BaseFee 0 60 100 = some 0 ∧
      computeEip1559BaseFee 1000 1 1 = none := by
  unfold FeeRule
  decide

end ZbxChain
