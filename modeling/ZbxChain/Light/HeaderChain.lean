import ZbxChain.Lib.Runs
import ZbxChain.Lib.SortedMap
import ZbxChain.Types.Header

/-!
# The header chain of a light client

`HeaderChain` of `zbx-light/src/header_chain.rs`, with the registry of pinned genesis hashes of
`zbx-types/src/pinned_genesis.rs`. The aggregate BLS check is a parameter, and so is the registry,
whose constants the operator replaces before a release.
-/

namespace ZbxChain

open SortedMap

namespace Light

structure LightHeader where
  number : UInt64
  hash : H256
  parentHash : H256
  stateRoot : H256
  transactionsRoot : H256
  receiptsRoot : H256
  timestamp : UInt64
  coinbase : Address
  quorumCert : Bytes
  finalized : Bool
  deriving DecidableEq

def LightHeader.validateBasic (h : LightHeader) : Except String Unit :=
  if h.number = 0 ∧ h.parentHash ≠ 0 then .error "genesis must have zero parent hash" else .ok ()

structure Checkpoint where
  number : UInt64
  hash : H256

/-! ## Pinned genesis hashes -/

def sentinelHash : H256 := BitVec.allOnes 256

inductive PinPolicy
  | required
  | allowUnregistered
  deriving DecidableEq

inductive PinError
  | unknownChainId (chainId : UInt64)
  | sentinel (chainId : UInt64)
  | allZero (chainId : UInt64)
  deriving DecidableEq

/-! ## The chain -/

/-- `verify_aggregate`: signature, public keys and message. -/
abbrev VerifyAggregate := Bytes → List Bytes → H256 → Bool

structure HeaderChain where
  headers : SortedMap Nat LightHeader
  maxHeaders : Nat
  checkpoint : Checkpoint
  validators : List Bytes
  devnetSeeded : Bool

def genesisRow (hash : H256) : LightHeader := ⟨0, hash, 0, 0, 0, 0, 0, 0, [], true⟩

namespace HeaderChain

/-- The pinned hash that a chain starts from, `none` on a development network. -/
def resolvePin (registry : UInt64 → Option H256) (chainId : UInt64) (policy : PinPolicy) :
    Except PinError (Option H256) :=
  match registry chainId, policy with
  | some p, _ =>
    if p = sentinelHash then .error (.sentinel chainId)
    else if p = 0 then .error (.allZero chainId)
    else .ok (some p)
  | none, .allowUnregistered => .ok none
  | none, .required => .error (.unknownChainId chainId)

def withPinnedChainId (registry : UInt64 → Option H256) (chainId : UInt64) (maxHeaders : Nat)
    (validators : List Bytes) (policy : PinPolicy) : Except PinError HeaderChain :=
  match resolvePin registry chainId policy with
  | .error e => .error e
  | .ok (some p) =>
    .ok ⟨empty.insert 0 (genesisRow p), maxHeaders, ⟨0, p⟩, validators, true⟩
  | .ok none => .ok ⟨empty, maxHeaders, ⟨0, 0⟩, validators, false⟩

variable (verify : VerifyAggregate) (c : HeaderChain)

def setDevnetGenesis (hash : H256) : Except PinError HeaderChain :=
  if hash = sentinelHash then .error (.sentinel 0)
  else if hash = 0 then .error (.allZero 0)
  else .ok { c with
    checkpoint := ⟨0, hash⟩
    headers := c.headers.insert 0 (genesisRow hash)
    devnetSeeded := true }

def get (number : Nat) : Option LightHeader := c.headers.get number

def verifyQc (h : LightHeader) : Bool :=
  h.quorumCert.length = 96 && verify h.quorumCert c.validators h.hash

def checkParent (h : LightHeader) : Except String Unit :=
  if c.checkpoint.number < h.number then
    match c.get (h.number.toNat - 1) with
    | some parent =>
      if parent.hash ≠ h.parentHash then .error "parent hash mismatch" else .ok ()
    | none => .ok ()
  else .ok ()

def checkQc (h : LightHeader) : Except String Unit :=
  if 0 < h.number ∧ c.validators ≠ [] ∧ c.verifyQc verify h = false then
    .error "invalid quorum certificate"
  else .ok ()

def checkInsert (h : LightHeader) : Except String Unit := do
  h.validateBasic
  if c.devnetSeeded = false then
    throw "genesis not seeded — call set_devnet_genesis() first"
  c.checkParent h
  c.checkQc verify h

def prune (maxHeaders : Nat) (headers : SortedMap Nat LightHeader) : SortedMap Nat LightHeader :=
  if maxHeaders < headers.length then headers.popFirst else headers

def store (h : LightHeader) : HeaderChain :=
  { c with headers := prune c.maxHeaders (c.headers.insert h.number.toNat h) }

def insert (h : LightHeader) : Except String HeaderChain := do
  c.checkInsert verify h
  return c.store h

/-- The chain after a call; one that is refused changes nothing. -/
def afterInsert (h : LightHeader) : HeaderChain :=
  ((c.insert verify h).toOption).getD c

/-- A chain whose genesis is `genesis`: pinned for its chain id, or set before any insertion. -/
inductive Seeded (registry : UInt64 → Option H256) : H256 → HeaderChain → Prop
  | pinned {chainId : UInt64} {maxHeaders : Nat} {validators : List Bytes} {policy : PinPolicy}
      {p : H256} {c : HeaderChain} (hpin : registry chainId = some p)
      (hnew : withPinnedChainId registry chainId maxHeaders validators policy = .ok c) :
      Seeded registry p c
  | devnet {chainId : UInt64} {maxHeaders : Nat} {validators : List Bytes} {policy : PinPolicy}
      {hash : H256} {c c' : HeaderChain}
      (hnew : withPinnedChainId registry chainId maxHeaders validators policy = .ok c)
      (hset : c.setDevnetGenesis hash = .ok c') : Seeded registry hash c'

end HeaderChain

/-! ## Intact chains -/

/-- The headers by height: the genesis row when height zero is stored, no gaps, and each header
names the one below it as its parent. -/
structure Intact (genesis : LightHeader) (get : Nat → Option LightHeader) : Prop where
  genesis : ∀ h, get 0 = some h → h = genesis
  contiguous : ∀ m n k, (get m).isSome → (get k).isSome → m ≤ n → n ≤ k → (get n).isSome
  linked : ∀ n a b, get n = some a → get (n + 1) = some b → b.parentHash = a.hash

/-- The headers after `h` is written at height `n` and those at the heights `gone` are dropped. -/
def rewritten (get : Nat → Option LightHeader) (n : Nat) (h : LightHeader) (gone : Nat → Prop)
    [DecidablePred gone] (a : Nat) : Option LightHeader :=
  if gone a then none else if a = n then some h else get a

/-- What `h` has to be at height `n`, unless it is dropped at once. -/
structure Extends (genesis : LightHeader) (get : Nat → Option LightHeader) (n : Nat)
    (h : LightHeader) (gone : Nat → Prop) : Prop where
  genesis : n = 0 → h = genesis
  child : ∀ child, get (n + 1) = some child → child.parentHash = h.hash
  beside : (∀ k, (get k).isSome → gone k) ∨ ∃ k, (get k).isSome ∧ (k = n ∨ k = n + 1 ∨ n = k + 1)

section

variable {genesis h : LightHeader} {get : Nat → Option LightHeader} {n : Nat} {gone : Nat → Prop}
  [DecidablePred gone]

theorem rewritten_isSome {a : Nat} :
    (rewritten get n h gone a).isSome ↔ ¬ gone a ∧ (a = n ∨ (get a).isSome) := by
  unfold rewritten
  by_cases hgone : gone a
  · simp [hgone]
  by_cases ha : a = n
  · simp [ha]
  · simp [hgone, ha]

theorem rewritten_self (hn : ¬ gone n) : rewritten get n h gone n = some h := by
  simp [rewritten, hn]

theorem rewritten_ne {a : Nat} (ha : a ≠ n) (hgone : ¬ gone a) :
    rewritten get n h gone a = get a := by
  simp [rewritten, ha, hgone]

theorem rewritten_cases {a : Nat} {x : LightHeader} (hx : rewritten get n h gone a = some x) :
    ¬ gone a ∧ (a = n ∧ x = h ∨ a ≠ n ∧ get a = some x) := by
  unfold rewritten at hx
  split at hx
  · cases hx
  · next hgone =>
    split at hx
    · next ha => exact ⟨hgone, .inl ⟨ha, (Option.some.inj hx).symm⟩⟩
    · next ha => exact ⟨hgone, .inr ⟨ha, hx⟩⟩

variable (hold : Intact genesis get)
  (hgone : ∀ a, gone a → a ≤ n ∧ ∀ k, (get k).isSome → a ≤ k)
  (hparent : ∀ m p, n = m + 1 → get m = some p → h.parentHash = p.hash)

include hgone

theorem extends_of_intact (hn : ¬ gone n) (hnew : Intact genesis (rewritten get n h gone)) :
    Extends genesis get n h gone := by
  refine ⟨?_, ?_, ?_⟩
  · rintro rfl
    exact hnew.genesis h (rewritten_self hn)
  · intro child hchild
    have hkept : ¬ gone (n + 1) := by
      intro ha
      have := (hgone _ ha).1
      omega
    refine hnew.linked n h child (rewritten_self hn) ?_
    rw [rewritten_ne (by omega) hkept]
    exact hchild
  · by_cases hall : ∀ k, (get k).isSome → gone k
    · exact .inl hall
    push Not at hall
    obtain ⟨k, hk, hkkept⟩ := hall
    refine .inr ?_
    have hk' : (rewritten get n h gone k).isSome := rewritten_isSome.mpr ⟨hkkept, .inr hk⟩
    have hn' : (rewritten get n h gone n).isSome := rewritten_isSome.mpr ⟨hn, .inl rfl⟩
    rcases lt_trichotomy k n with hlt | heq | hgt
    · -- the height below `n` lies between `k` and `n`
      have hbelow := hnew.contiguous k (n - 1) n hk' hn' (by omega) (by omega)
      obtain ⟨-, hbelow⟩ := rewritten_isSome.mp hbelow
      refine ⟨n - 1, hbelow.resolve_left (by omega), ?_⟩
      omega
    · exact ⟨k, hk, .inl heq⟩
    have habove := hnew.contiguous n (n + 1) k hn' hk' (by omega) (by omega)
    obtain ⟨-, habove⟩ := rewritten_isSome.mp habove
    exact ⟨n + 1, habove.resolve_left (by omega), .inr (.inl rfl)⟩

include hold

theorem contiguous_rewritten {m a k : Nat} (hm : ¬ gone m)
    (hstored : (get m).isSome) (hk : (get k).isSome) (hma : m ≤ a) (hak : a ≤ k) :
    (rewritten get n h gone a).isSome := by
  refine rewritten_isSome.mpr ⟨?_, .inr (hold.contiguous m a k hstored hk hma hak)⟩
  intro ha
  have := (hgone a ha).2 m hstored
  have hmeq : m = a := by omega
  exact hm (hmeq ▸ ha)

theorem intact_of_gone (hn : gone n) : Intact genesis (rewritten get n h gone) := by
  have hlow := (hgone n hn).2
  refine ⟨?_, ?_, ?_⟩
  · intro x hx
    obtain ⟨hkept, ⟨rfl, -⟩ | ⟨-, hget⟩⟩ := rewritten_cases hx
    · exact absurd hn hkept
    · exact hold.genesis x hget
  · intro m a k hm hk hma hak
    rw [rewritten_isSome] at hm hk
    obtain ⟨hmkept, hm⟩ := hm
    obtain ⟨-, hk⟩ := hk
    have hmn : m ≠ n := fun he => hmkept (he ▸ hn)
    have hstored : (get m).isSome := hm.resolve_left hmn
    have hkstored : (get k).isSome := by
      rcases hk with hkn | hk
      · have := hlow m hstored
        have hmk : m = k := by omega
        exact hmk ▸ hstored
      · exact hk
    exact contiguous_rewritten hold hgone hmkept hstored hkstored hma hak
  · intro m a b ha hb
    obtain ⟨hmkept, ⟨rfl, -⟩ | ⟨-, ha⟩⟩ := rewritten_cases ha
    · exact absurd hn hmkept
    obtain ⟨hnkept, ⟨rfl, -⟩ | ⟨-, hb⟩⟩ := rewritten_cases hb
    · exact absurd hn hnkept
    exact hold.linked m a b ha hb

include hparent

theorem intact_of_extends (hn : ¬ gone n) (hext : Extends genesis get n h gone) :
    Intact genesis (rewritten get n h gone) := by
  refine ⟨?_, ?_, ?_⟩
  · intro x hx
    obtain ⟨-, ⟨hzero, rfl⟩ | ⟨-, hget⟩⟩ := rewritten_cases hx
    · exact hext.genesis hzero.symm
    · exact hold.genesis x hget
  · intro m a k hm hk hma hak
    rw [rewritten_isSome] at hm hk
    obtain ⟨hmkept, hm⟩ := hm
    obtain ⟨-, hk⟩ := hk
    have hself : (rewritten get n h gone n).isSome := rewritten_isSome.mpr ⟨hn, .inl rfl⟩
    -- what is stored next to `n` closes the gap between `n` and the other end
    rcases hm with hmn | hm
    · rcases hk with hkn | hk
      · obtain rfl : a = n := by omega
        exact hself
      by_cases han : a = n
      · exact han ▸ hself
      rcases hext.beside with hall | ⟨j, hj, hjn⟩
      · have := (hgone k (hall k hk)).1
        omega
      have habove : (get (n + 1)).isSome :=
        hold.contiguous j (n + 1) k hj hk (by omega) (by omega)
      have hkept : ¬ gone (n + 1) := by
        intro hi
        have := (hgone _ hi).1
        omega
      exact contiguous_rewritten hold hgone hkept habove hk (by omega) hak
    · rcases hk with hkn | hk
      · by_cases han : a = n
        · exact han ▸ hself
        rcases hext.beside with hall | ⟨j, hj, hjn⟩
        · exact absurd (hall m hm) hmkept
        by_cases hmn : m = n
        · -- then all three heights are the same
          exact absurd (by omega) han
        have hbelow : (get (n - 1)).isSome :=
          hold.contiguous m (n - 1) j hm hj (by omega) (by omega)
        exact contiguous_rewritten hold hgone hmkept hm hbelow hma (by omega)
      · exact contiguous_rewritten hold hgone hmkept hm hk hma hak
  · intro m a b ha hb
    have hlower := (rewritten_cases ha).2
    have hupper := (rewritten_cases hb).2
    rcases hlower with ⟨rfl, rfl⟩ | ⟨-, hlower⟩
    · rcases hupper with ⟨hsame, -⟩ | ⟨-, hupper⟩
      · omega
      · exact hext.child b hupper
    rcases hupper with ⟨hsame, rfl⟩ | ⟨-, hupper⟩
    · exact hparent m a hsame.symm hlower
    · exact hold.linked m a b hlower hupper

theorem intact_iff :
    Intact genesis (rewritten get n h gone) ↔ gone n ∨ Extends genesis get n h gone := by
  by_cases hn : gone n
  · exact ⟨fun _ => .inl hn, fun _ => intact_of_gone hold hgone hn⟩
  constructor
  · exact fun hnew => .inr (extends_of_intact hgone hn hnew)
  rintro (hgone' | hext)
  · exact absurd hgone' hn
  · exact intact_of_extends hold hgone hparent hn hext

end

/-! ## One insertion -/

namespace HeaderChain

variable {verify : VerifyAggregate} {registry : UInt64 → Option H256} {genesis : H256}
  {c : HeaderChain} {h : LightHeader}

theorem insert_eq_ok {c' : HeaderChain} :
    c.insert verify h = .ok c' ↔ c.checkInsert verify h = .ok () ∧ c' = c.store h := by
  unfold insert
  rw [bind_eq_ok]
  constructor
  · rintro ⟨⟨⟩, hcheck, hstore⟩
    exact ⟨hcheck, (Except.ok.inj hstore).symm⟩
  · rintro ⟨hcheck, rfl⟩
    exact ⟨(), hcheck, rfl⟩

variable (verify c h) in
theorem afterInsert_cases : c.checkInsert verify h = .ok () ∧ c.afterInsert verify h = c.store h ∨
      c.checkInsert verify h ≠ .ok () ∧ c.afterInsert verify h = c := by
  unfold afterInsert
  cases hins : c.insert verify h with
  | ok c' =>
    obtain ⟨hcheck, rfl⟩ := insert_eq_ok.mp hins
    exact .inl ⟨hcheck, rfl⟩
  | error e =>
    refine .inr ⟨fun hcheck => ?_, rfl⟩
    have hok := insert_eq_ok.mpr ⟨hcheck, rfl⟩
    rw [hins] at hok
    cases hok

theorem checkInsert_ok (hok : c.checkInsert verify h = .ok ()) :
    c.checkParent h = .ok () ∧ c.checkQc verify h = .ok () := by
  obtain ⟨⟨⟩, -, hok⟩ := bind_eq_ok.mp hok
  split at hok
  · cases hok
  · obtain ⟨⟨⟩, hparent, hqc⟩ := bind_eq_ok.mp hok
    exact ⟨hparent, hqc⟩

theorem parentHash_of_checkParent (hok : c.checkParent h = .ok ()) (hzero : c.checkpoint.number = 0)
    {m : Nat} {p : LightHeader} (hnumber : h.number.toNat = m + 1) (hp : c.get m = some p) :
    h.parentHash = p.hash := by
  have hpos : c.checkpoint.number < h.number := by
    rw [hzero, UInt64.lt_iff_toNat_lt, hnumber]
    exact Nat.succ_pos m
  unfold checkParent at hok
  rw [if_pos hpos, hnumber, Nat.add_sub_cancel, hp] at hok
  dsimp only at hok
  by_cases hhash : p.hash = h.parentHash
  · exact hhash.symm
  · rw [if_pos hhash] at hok
    cases hok

def sizeWith (c : HeaderChain) (h : LightHeader) : Nat :=
  if (c.get h.number.toNat).isSome then c.headers.length else c.headers.length + 1

/-- Storing `h` makes the chain too long, and height `k` is not above any other. -/
def Evicts (c : HeaderChain) (h : LightHeader) (k : Nat) : Prop :=
  c.maxHeaders < c.sizeWith h ∧ k ≤ h.number.toNat ∧ ∀ j, (c.get j).isSome → k ≤ j

variable (c h) in
open Classical in
theorem get_store : (c.store h).get = rewritten c.get h.number.toNat h (c.Evicts h) := by
  funext a
  have hsize : (c.headers.insert h.number.toNat h).length = c.sizeWith h :=
    length_insert c.headers h.number.toNat h
  unfold rewritten
  show (prune c.maxHeaders (c.headers.insert h.number.toNat h)).get a = _
  unfold prune
  rw [hsize]
  by_cases hfull : c.maxHeaders < c.sizeWith h
  · rw [if_pos hfull]
    obtain ⟨k, hk⟩ := exists_isFirst (m := c.headers.insert h.number.toNat h)
      (by rw [hsize]; omega)
    have hself : k ≤ h.number.toNat := hk.2 _ (by simp)
    have hothers : ∀ j, (c.get j).isSome → k ≤ j := by
      intro j hj
      refine hk.2 j ?_
      rw [get_insert]
      split
      · rfl
      · exact hj
    rw [get_popFirst hk, get_insert]
    by_cases ha : a = k
    · rw [if_pos ha, if_pos ⟨hfull, ha ▸ hself, ha ▸ hothers⟩]
    rw [if_neg ha]
    by_cases hev : c.Evicts h a
    · -- below the least height nothing is stored
      have hlow : a ≤ k := by
        have hkk := hk.1
        rw [get_insert] at hkk
        split at hkk
        · next hkn => exact hkn ▸ hev.2.1
        · exact hev.2.2 k hkk
      rw [if_pos hev, if_neg (by omega)]
      cases hget : c.headers.get a with
      | none => rfl
      | some x =>
        have := hothers a (Option.isSome_of_eq_some hget)
        omega
    · rw [if_neg hev]
      rfl
  · rw [if_neg hfull, if_neg (fun hev => hfull hev.1), get_insert]
    rfl

/-- What an accepted header has to be: it is dropped at once, or it is the genesis row when its
height is zero, the parent of the child that is stored, and next to a stored height unless all
that is stored is dropped. -/
def Fits (genesis : H256) (c : HeaderChain) (h : LightHeader) : Prop :=
  c.Evicts h h.number.toNat ∨
    Extends (genesisRow genesis) c.get h.number.toNat h (c.Evicts h)

theorem store_intact_iff (hzero : c.checkpoint.number = 0)
    (hold : Intact (genesisRow genesis) c.get) (hok : c.checkInsert verify h = .ok ()) :
    Intact (genesisRow genesis) (c.store h).get ↔ c.Fits genesis h := by
  classical
  rw [get_store]
  refine intact_iff hold (fun a ha => ha.2) ?_
  intro m p hnumber hp
  exact parentHash_of_checkParent (checkInsert_ok hok).1 hzero hnumber hp

/-! ## All insertions -/

theorem intact_genesis {get : Nat → Option LightHeader}
    (hget : ∀ a, get a = if a = 0 then some (genesisRow genesis) else none) :
    Intact (genesisRow genesis) get := by
  have hzero : ∀ a, (get a).isSome → a = 0 := by
    intro a ha
    by_contra hne
    rw [hget, if_neg hne] at ha
    cases ha
  refine ⟨?_, ?_, ?_⟩
  · intro x hx
    rw [hget, if_pos rfl] at hx
    exact (Option.some.inj hx).symm
  · intro m n k _ hk _ hnk
    have := hzero k hk
    obtain rfl : n = k := by omega
    exact hk
  intro n a b _ hb
  have := hzero (n + 1) (Option.isSome_of_eq_some hb)
  omega

theorem resolvePin_of_registered {chainId : UInt64} {policy : PinPolicy} {p : H256}
    {pin : Option H256} (hpin : registry chainId = some p)
    (hres : resolvePin registry chainId policy = .ok pin) : pin = some p := by
  unfold resolvePin at hres
  rw [hpin] at hres
  simp only [ite_error_eq_ok, Except.ok.injEq] at hres
  exact hres.2.2.symm

theorem get_withPinnedChainId {chainId : UInt64} {maxHeaders : Nat} {validators : List Bytes}
    {policy : PinPolicy}
    (hnew : withPinnedChainId registry chainId maxHeaders validators policy = .ok c) :
    ∀ a, a ≠ 0 → c.get a = none := by
  intro a ha
  unfold withPinnedChainId at hnew
  split at hnew
  · cases hnew
  · cases hnew
    simp [get, ha]
  · cases hnew
    rfl

theorem Seeded.start (hseed : Seeded registry genesis c) :
    c.checkpoint.number = 0 ∧ Intact (genesisRow genesis) c.get := by
  cases hseed with
  | @pinned chainId _ _ policy _ _ hpin hnew =>
    unfold withPinnedChainId at hnew
    split at hnew
    · cases hnew
    · next hres =>
      cases hnew
      cases resolvePin_of_registered hpin hres
      exact ⟨rfl, intact_genesis fun a => by simp [get]⟩
    · next hres => cases resolvePin_of_registered hpin hres
  | @devnet _ _ _ _ _ c₀ _ hnew hset =>
    have hempty := get_withPinnedChainId hnew
    unfold setDevnetGenesis at hset
    simp only [ite_error_eq_ok] at hset
    obtain ⟨-, -, hset⟩ := hset
    cases hset
    refine ⟨rfl, intact_genesis fun a => ?_⟩
    show (c₀.headers.insert 0 (genesisRow genesis)).get a = _
    rw [get_insert]
    split
    · rfl
    · next ha => exact hempty a ha

variable (verify c h) in
theorem checkpoint_afterInsert : (c.afterInsert verify h).checkpoint = c.checkpoint := by
  obtain ⟨-, heq⟩ | ⟨-, heq⟩ := afterInsert_cases verify c h
  · rw [heq]
    rfl
  · rw [heq]

/-- From the genesis on, the chain is intact all along exactly when every header that `insert`
accepts fits in the chain that it meets. -/
theorem chain_intact_iff (hseed : Seeded registry genesis c) (headers : List LightHeader) :
    Always (afterInsert verify) (fun c => Intact (genesisRow genesis) c.get) c headers ↔
      Meets (afterInsert verify)
        (fun c h => c.checkInsert verify h = .ok () → c.Fits genesis h) c headers := by
  refine always_iff_meets (I := fun c => c.checkpoint.number = 0) ?_ ?_ hseed.start.1
    hseed.start.2
  · intro c h hzero
    rw [checkpoint_afterInsert]
    exact hzero
  intro c h hzero hold
  obtain ⟨hok, heq⟩ | ⟨hrefused, heq⟩ := afterInsert_cases verify c h
  · rw [heq, store_intact_iff hzero hold hok]
    exact ⟨fun hfits _ => hfits, fun hfits => hfits hok⟩
  · rw [heq]
    exact ⟨fun _ hok => absurd hok hrefused, fun _ => hold⟩

/-- A chain of two validators whose genesis hash is 7, with a signature that is taken for theirs. -/
def sampleChain : HeaderChain :=
  ⟨empty.insert 0 (genesisRow 7), 8, ⟨0, 7⟩, [[1], [2]], true⟩

def sampleHeader (number : UInt64) (hash parentHash : H256) : LightHeader :=
  ⟨number, hash, parentHash, 0, 0, 0, 0, 0, List.replicate 96 1, false⟩

def sampleVerify : VerifyAggregate := fun sig _ _ => sig = List.replicate 96 1

theorem sampleChain_seeded : Seeded (fun _ => some 7) 7 sampleChain :=
  @Seeded.pinned _ 1 8 [[1], [2]] .required 7 sampleChain rfl rfl

theorem signed_child_intact : Seeded (fun _ => some 7) 7 sampleChain ∧ sampleChain.validators ≠ [] ∧
      Always (afterInsert sampleVerify) (fun c => Intact (genesisRow 7) c.get) sampleChain
        [sampleHeader 1 8 7] := by
  refine ⟨sampleChain_seeded, by decide, (chain_intact_iff sampleChain_seeded _).mpr ?_⟩
  refine meets_cons.mpr ⟨fun _ => .inr ⟨?_, ?_, ?_⟩, meets_nil⟩
  · exact fun hzero => absurd hzero (by decide)
  · intro child hchild
    cases hchild
  · exact .inr ⟨0, rfl, .inr (.inr rfl)⟩

/-- Another genesis, a gap, and a parent that its child does not name. -/
theorem insert_breaks_chain : Seeded (fun _ => some 7) 7 sampleChain ∧ sampleChain.validators ≠ [] ∧
      ([sampleHeader 0 9 0].foldl (afterInsert sampleVerify) sampleChain).get 0 =
        some (sampleHeader 0 9 0) ∧
      (([sampleHeader 3 9 8].foldl (afterInsert sampleVerify) sampleChain).headers.entries.map
        Prod.fst) = [0, 3] ∧ (([sampleHeader 1 8 7, sampleHeader 2 9 8, sampleHeader 1 5 7].foldl
        (afterInsert sampleVerify) sampleChain).headers.entries.map
        fun e => (e.1, e.2.hash, e.2.parentHash)) = [(0, 7, 0), (1, 5, 7), (2, 9, 8)] :=
  ⟨sampleChain_seeded, by decide, by decide +kernel, by decide +kernel, by decide +kernel⟩

end HeaderChain

end Light

end ZbxChain

/-!
## What the signature on a light header says

The committee signs the hash of a complete header. The headers that the committee has sealed are a
parameter, and a verified signature is taken to be over the hash of one of them.
-/

namespace ZbxChain.Light

variable {verify : VerifyAggregate} {validators : List Bytes} {made : Set SealedHeader}
  {h h' : LightHeader}

/-- A chain with this committee takes `h` as a header above the genesis. -/
def Accepted (verify : VerifyAggregate) (validators : List Bytes) (h : LightHeader) : Prop :=
  validators ≠ [] ∧ 0 < h.number ∧
    ∃ c c' : HeaderChain, c.validators = validators ∧ c.insert verify h = .ok c'

structure LightHeader.Extracts (h : LightHeader) (full : SealedHeader) : Prop where
  number : h.number = full.number
  parentHash : h.parentHash = full.parentHash
  stateRoot : h.stateRoot = full.stateRoot
  transactionsRoot : h.transactionsRoot = full.transactionsRoot
  receiptsRoot : h.receiptsRoot = full.receiptsRoot
  timestamp : h.timestamp = full.timestamp

structure LightHeader.SameFields (h h' : LightHeader) : Prop where
  number : h.number = h'.number
  parentHash : h.parentHash = h'.parentHash
  stateRoot : h.stateRoot = h'.stateRoot
  transactionsRoot : h.transactionsRoot = h'.transactionsRoot
  receiptsRoot : h.receiptsRoot = h'.receiptsRoot
  timestamp : h.timestamp = h'.timestamp

def Genuine (made : Set SealedHeader) (h : LightHeader) : Prop :=
  ∃ full ∈ made, full.hash = h.hash ∧ h.Extracts full

/-- The signed hash determines the fields: they are those of any sealed header with the hash. -/
def Determined (made : Set SealedHeader) (h : LightHeader) : Prop :=
  ∀ full ∈ made, full.hash = h.hash → h.Extracts full

theorem LightHeader.Extracts.sameFields {full : SealedHeader} (hfull : h.Extracts full)
    (hfull' : h'.Extracts full) : h.SameFields h' :=
  ⟨hfull.number.trans hfull'.number.symm, hfull.parentHash.trans hfull'.parentHash.symm,
    hfull.stateRoot.trans hfull'.stateRoot.symm,
    hfull.transactionsRoot.trans hfull'.transactionsRoot.symm,
    hfull.receiptsRoot.trans hfull'.receiptsRoot.symm,
    hfull.timestamp.trans hfull'.timestamp.symm⟩

theorem LightHeader.SameFields.extracts {full : SealedHeader} (hsame : h.SameFields h')
    (hfull : h.Extracts full) : h'.Extracts full :=
  ⟨hsame.number.symm.trans hfull.number, hsame.parentHash.symm.trans hfull.parentHash,
    hsame.stateRoot.symm.trans hfull.stateRoot,
    hsame.transactionsRoot.symm.trans hfull.transactionsRoot,
    hsame.receiptsRoot.symm.trans hfull.receiptsRoot,
    hsame.timestamp.symm.trans hfull.timestamp⟩

theorem Accepted.signed (h : Accepted verify validators h') :
    verify h'.quorumCert validators h'.hash = true := by
  obtain ⟨hvalidators, hpos, c, c', rfl, hins⟩ := h
  have hqc := (HeaderChain.checkInsert_ok (HeaderChain.insert_eq_ok.mp hins).1).2
  unfold HeaderChain.checkQc at hqc
  split at hqc
  · cases hqc
  · next hpass =>
    have hverified : c.verifyQc verify h' = true := by
      by_contra hfails
      exact hpass ⟨hpos, hvalidators, Bool.eq_false_iff.mpr hfails⟩
    exact (Bool.and_eq_true_iff.mp hverified).2

section

variable (hsigned : ∀ sig hash, verify sig validators hash = true → ∃ full ∈ made, full.hash = hash)
  (hfree : CollisionFree (SealedHeader.canonicalEncode '' made))

include hfree

theorem Genuine.determined (hgenuine : Genuine made h) : Determined made h := by
  obtain ⟨full, hfull, hhash, hext⟩ := hgenuine
  intro other hother hhash'
  have hencode : full.canonicalEncode = other.canonicalEncode :=
    hfree.eq ⟨full, hfull, rfl⟩ ⟨other, hother, rfl⟩ (hhash.trans hhash'.symm)
  obtain ⟨hparent, hstate, htxs, hreceipts, hnumber, htimestamp, -⟩ :=
    SealedHeader.fields_of_canonicalEncode hencode
  exact ⟨hext.number.trans hnumber, hext.parentHash.trans hparent, hext.stateRoot.trans hstate,
    hext.transactionsRoot.trans htxs, hext.receiptsRoot.trans hreceipts,
    hext.timestamp.trans htimestamp⟩

theorem sameFields_iff_genuine (hhash : h.hash = h'.hash) (hgenuine : Genuine made h) :
    h.SameFields h' ↔ Genuine made h' := by
  obtain ⟨full, hfull, hfullhash, hext⟩ := id hgenuine
  constructor
  · intro hsame
    exact ⟨full, hfull, hfullhash.trans hhash, hsame.extracts hext⟩
  · intro hgenuine'
    exact hext.sameFields (hgenuine'.determined hfree full hfull (hfullhash.trans hhash))

include hsigned

theorem determined_iff_genuine (hacc : Accepted verify validators h) :
    Determined made h ↔ Genuine made h := by
  constructor
  · intro hdet
    obtain ⟨full, hfull, hhash⟩ := hsigned _ _ hacc.signed
    exact ⟨full, hfull, hhash, hdet full hfull hhash⟩
  · exact Genuine.determined hfree

/-- The signature determines the fields of two accepted headers with one signed hash exactly when
both are extracts of sealed headers. When one of them is, the two have the same fields exactly
when the other is too. -/
theorem accepted_fields_iff (hacc : Accepted verify validators h)
    (hacc' : Accepted verify validators h') (hhash : h.hash = h'.hash) :
    (Determined made h ∧ Determined made h' ↔ Genuine made h ∧ Genuine made h') ∧
      (Genuine made h → (h.SameFields h' ↔ Genuine made h')) ∧
      (Genuine made h' → (h'.SameFields h ↔ Genuine made h)) := by
  refine ⟨?_, sameFields_iff_genuine hfree hhash, sameFields_iff_genuine hfree hhash.symm⟩
  rw [determined_iff_genuine hsigned hfree hacc, determined_iff_genuine hsigned hfree hacc']

end

/-! ## A forged extract -/

def sampleSealed : SealedHeader where
  number := 5
  stateRoot := 11
  timestamp := 60
  coinbase := 0
  gasLimit := 30000000
  gasUsed := 0
  mixHash := 0
  baseFeePerGas := 1
  parentHash := 4
  uncleHash := 0
  transactionsRoot := 12
  receiptsRoot := 13
  logsBloom := 0
  difficulty := 0
  extraData := []
  nonce := 0
  committeeSignature := []
  epoch := 0
  epochSeed := none

def sampleExtract (stateRoot : H256) : LightHeader :=
  ⟨5, sampleSealed.hash, 4, stateRoot, 12, 13, 60, 0, List.replicate 96 1, false⟩

def signsSample : VerifyAggregate := fun sig _ hash =>
  sig = List.replicate 96 1 && hash = sampleSealed.hash

theorem signsSample_sound (sig : Bytes) (hash : H256) (h : signsSample sig [[1], [2]] hash = true) :
    ∃ full ∈ ({sampleSealed} : Set SealedHeader), full.hash = hash := by
  have hhash := (Bool.and_eq_true_iff.mp h).2
  exact ⟨sampleSealed, rfl, (of_decide_eq_true hhash).symm⟩

theorem sampleExtract_accepted (stateRoot : H256) (coinbase : Address) :
    Accepted signsSample [[1], [2]] { sampleExtract stateRoot with coinbase := coinbase } := by
  have hpos : (0 : UInt64) < 5 := by decide
  refine ⟨by decide, hpos, HeaderChain.sampleChain, _, rfl,
    HeaderChain.insert_eq_ok.mpr ⟨?_, rfl⟩⟩
  have hsigned : signsSample (List.replicate 96 1) [[1], [2]] sampleSealed.hash = true := by
    simp [signsSample]
  have hqc : HeaderChain.sampleChain.verifyQc signsSample
      { sampleExtract stateRoot with coinbase := coinbase } = true :=
    Bool.and_eq_true_iff.mpr ⟨rfl, hsigned⟩
  have hcheck : HeaderChain.sampleChain.checkQc signsSample
      { sampleExtract stateRoot with coinbase := coinbase } = .ok () := by
    unfold HeaderChain.checkQc
    rw [if_neg (fun hfails => absurd (hqc.symm.trans hfails.2.2) (by decide))]
  exact hcheck

theorem collisionFree_sample : CollisionFree (SealedHeader.canonicalEncode '' {sampleSealed}) := by
  rw [Set.image_singleton]
  exact Set.injOn_singleton _ _

/-- The fields of a genuine extract, by whomever the block was made, and not those of another. -/
theorem forged_extract_differs :
    (sampleExtract 11).SameFields { sampleExtract 11 with coinbase := 7 } ∧
      ¬ (sampleExtract 11).SameFields (sampleExtract 99) := by
  have hgenuine (coinbase : Address) :
      Genuine {sampleSealed} { sampleExtract 11 with coinbase := coinbase } :=
    ⟨sampleSealed, rfl, rfl, ⟨rfl, rfl, rfl, rfl, rfl, rfl⟩⟩
  have hiff {h' : LightHeader} (hacc' : Accepted signsSample [[1], [2]] h')
      (hhash : h'.hash = sampleSealed.hash) :=
    (accepted_fields_iff signsSample_sound collisionFree_sample (sampleExtract_accepted 11 0) hacc'
      hhash.symm).2.1 (hgenuine 0)
  refine ⟨(hiff (sampleExtract_accepted 11 7) rfl).mpr (hgenuine 7), fun hsame => ?_⟩
  obtain ⟨full, rfl, -, hfull⟩ := (hiff (sampleExtract_accepted 99 0) rfl).mp hsame
  exact absurd hfull.stateRoot (by decide)

theorem one_hash_two_states : Accepted signsSample [[1], [2]] (sampleExtract 11) ∧
      Accepted signsSample [[1], [2]] (sampleExtract 99) ∧
      (sampleExtract 11).hash = (sampleExtract 99).hash ∧
      (sampleExtract 11).stateRoot ≠ (sampleExtract 99).stateRoot :=
  ⟨sampleExtract_accepted 11 0, sampleExtract_accepted 99 0, rfl, by decide⟩

end ZbxChain.Light
