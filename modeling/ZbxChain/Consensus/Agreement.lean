import ZbxChain.Consensus.Support
import ZbxChain.Lib.Runs

/-!
# Agreement

Nodes of one deployment are given proposals, votes and timeouts in any order, with losses and
duplicates. Signatures of correct validators cannot be forged, and the strings that the nodes
hash do not collide.
-/

namespace ZbxChain.HotStuff

open HotStuffConsensus List

/-! ## Deployments and their runs -/

/-- The validators with their keys, of which a minority is Byzantine, and what the nodes sign
with. The keys of the other validators are those of their nodes. -/
structure Deployment (B : BlsScheme) where
  validators : List (Address × Bytes)
  nonempty : validators ≠ []
  privKey : Address → Bytes
  genesisEpochSeed : Option H256
  byzantine : Finset Address
  few : byzantine.card ≤ Quorum.faults validators.length
  keys : ∀ entry ∈ validators, entry.1 ∉ byzantine → entry.2 = B.toPubkey (privKey entry.1)

structure Delivery where
  node : Address
  input : Input

variable {B : BlsScheme}

namespace Deployment

def config (d : Deployment B) (i : Address) : NodeConfig :=
  ⟨i, d.privKey i, d.validators, d.genesisEpochSeed, d.nonempty⟩

def init (d : Deployment B) : Address → Replica := fun i => .start ((d.config i).build B)

end Deployment

def deliver (B : BlsScheme) (c : Address → Replica) (a : Delivery) : Address → Replica :=
  Function.update c a.node ((c a.node).receive B a.input)

/-- The committee is fixed, and a signature that verifies under the key of a correct validator
is on a message that this validator has signed. -/
structure Admissible (d : Deployment B) (c : Address → Replica) (a : Delivery) : Prop where
  fixed : Fixed a.input
  authentic : ∀ vote pubkey, a.input = .vote vote pubkey → vote.voter ∉ d.byzantine →
    pubkey = B.toPubkey (d.privKey vote.voter) →
    B.verifySingle vote.signature pubkey vote.data.digest = true →
    ∃ cast ∈ (c vote.voter).signed, cast.data.digest = vote.data.digest

def hashed (c : Address → Replica) : Set Bytes :=
  {s | ∃ i, (∃ block, Proposed (c i).received block ∧ s = block.header.canonicalEncode) ∨
    (∃ v ∈ (c i).signed, s = v.data.signingBytes) ∨
    ∃ v pubkey, .vote v pubkey ∈ (c i).received ∧ s = v.data.signingBytes}

/-! ## Built nodes -/

variable {addr : Address} {pk : Bytes} {hash : H256} {run : List Delivery} {qc : QuorumCertificate}
  {r : Replica} {block : SealedBlock} {number : UInt64} {phase : UInt8}

theorem lookup_foldl_register {entries : List (Address × Bytes)} {n : HotStuffConsensus}
    (h : (entries.foldl NodeConfig.register n).validatorPubkeys.lookup addr = some pk) :
    n.validatorPubkeys.lookup addr = some pk ∨ (addr, pk) ∈ entries := by
  induction entries generalizing n with
  | nil => exact .inl h
  | cons entry rest ih =>
    rcases ih h with hregistered | hrest
    · have hinsert : ∀ {keys : AList fun _ : Address => Bytes},
          (keys.insert entry.1 entry.2).lookup addr = some pk →
          keys.lookup addr = some pk ∨ (addr, pk) ∈ entry :: rest := by
        intro keys hlookup
        rcases FiniteMap.lookup_insert_cases hlookup with ⟨rfl, rfl⟩ | hold
        · exact .inr mem_cons_self
        · exact .inl hold
      unfold NodeConfig.register registerValidatorPubkey at hregistered
      split at hregistered
      · split at hregistered
        · exact .inl hregistered
        · exact hinsert hregistered
      · exact hinsert hregistered
    · exact .inr (mem_cons_of_mem _ hrest)

theorem mem_of_lookup_build {cfg : NodeConfig}
    (h : (cfg.build B).validatorPubkeys.lookup addr = some pk) : (addr, pk) ∈ cfg.validators := by
  rcases lookup_foldl_register h with hnew | hmem
  · split at hnew
    · cases hnew
    · split at hnew <;> cases hnew
  · exact hmem

theorem build_validators (cfg : NodeConfig) :
    (cfg.build B).validatorSet.validators = cfg.validators.map (·.1) := by
  obtain ⟨seed, keys, hbuild⟩ := cfg.build_eq B
  rw [hbuild]
  rfl

/-! ## The invariant -/

variable {d : Deployment B} {c : Address → Replica} {a : Delivery} {i j : Address}

/-- What holds of the nodes in every run: each of them is sound and has the configured
committee, and behind each counted vote of a correct validator is one that it has signed. -/
structure ClusterSound (d : Deployment B) (c : Address → Replica) : Prop where
  sound : ∀ i, (c i).Sound B
  committee : ∀ i, SameCommittee ((d.config i).build B) (c i).node
  authentic : ∀ i key acc addr vote pubkey, (c i).node.voteAccumulators.lookup key = some acc →
    acc.votes.lookup addr = some (vote, pubkey) → addr ∉ d.byzantine →
    ∃ cast ∈ (c addr).signed, cast.data.digest = vote.data.digest

theorem clusterSound_init (d : Deployment B) : ClusterSound d d.init := by
  refine ⟨fun i => Replica.sound_build B (d.config i), fun i => .refl _, ?_⟩
  intro i key acc addr vote pubkey hlookup
  have hsound := Replica.sound_build B (d.config i)
  intro hvote
  cases hsound.counted key acc addr vote pubkey hlookup hvote

theorem deliver_self : deliver B c a a.node = (c a.node).receive B a.input :=
  Function.update_self _ _ _

theorem deliver_of_ne (h : i ≠ a.node) : deliver B c a i = c i := Function.update_of_ne h _ _

theorem signed_deliver {v : Vote} (h : v ∈ (c i).signed) : v ∈ (deliver B c a i).signed := by
  by_cases hi : i = a.node
  · rw [hi, deliver_self]
    obtain ⟨votes, hsigned, -⟩ := (c a.node).receive_rules B a.input
    rw [hsigned]
    exact mem_append_left _ (hi ▸ h)
  · rw [deliver_of_ne hi]
    exact h

theorem committee_receive {input : Input} (hfixed : Fixed input) :
    SameCommittee r.node (r.receive B input).node := by
  rcases r.receive_cases B input with hsame | ⟨-, hnode, -⟩
  · rw [hsame]
    exact .refl _
  · rw [hnode]
    exact committee_handle hfixed

theorem registered_key (h : ClusterSound d c) {vote : Vote} {pubkey : Bytes}
    (hscreen : (c i).node.screen B vote pubkey = none) (hcorrect : vote.voter ∉ d.byzantine) :
    pubkey = B.toPubkey (d.privKey vote.voter) := by
  have hregistered := (screen_eq_none hscreen).registered
  rw [(h.committee i).pubkeys] at hregistered
  exact d.keys _ (mem_of_lookup_build hregistered) hcorrect

theorem ClusterSound.deliver (h : ClusterSound d c) (hadmissible : Admissible d c a) :
    ClusterSound d (deliver B c a) := by
  refine ⟨fun i => ?_, fun i => ?_, ?_⟩
  · by_cases hi : i = a.node
    · rw [hi, deliver_self]
      exact (h.sound a.node).receive hadmissible.fixed
    · rw [deliver_of_ne hi]
      exact h.sound i
  · by_cases hi : i = a.node
    · rw [hi, deliver_self]
      exact (h.committee a.node).trans (committee_receive hadmissible.fixed)
    · rw [deliver_of_ne hi]
      exact h.committee i
  intro i key acc addr vote pubkey hlookup hvote hcorrect
  -- a vote that was counted before was signed before
  have hold : ∀ {old : VoteAccumulator}, (c i).node.voteAccumulators.lookup key = some old →
      old.votes.lookup addr = some (vote, pubkey) →
      ∃ cast ∈ (HotStuff.deliver B c a addr).signed, cast.data.digest = vote.data.digest := by
    intro old hlookup' hvote'
    obtain ⟨cast, hcast, hdigest⟩ := h.authentic i key old addr vote pubkey hlookup' hvote' hcorrect
    exact ⟨cast, signed_deliver hcast, hdigest⟩
  by_cases hi : i = a.node
  · subst hi
    rw [deliver_self] at hlookup
    rcases (c a.node).receive_cases B a.input with hsame | ⟨-, hnode, -⟩
    · rw [hsame] at hlookup
      exact hold hlookup hvote
    rw [hnode] at hlookup
    rcases counted_handle hadmissible.fixed hlookup hvote with
      ⟨old, hlookup', hvote'⟩ | ⟨hinput, haddr, hscreen⟩
    · exact hold hlookup' hvote'
    rw [haddr] at hcorrect ⊢
    obtain ⟨cast, hcast, hdigest⟩ := hadmissible.authentic vote pubkey hinput hcorrect
      (registered_key h hscreen hcorrect) (screen_eq_none hscreen).signed
    exact ⟨cast, signed_deliver hcast, hdigest⟩
  · rw [deliver_of_ne hi] at hlookup
    exact hold hlookup hvote

/-! ## Quorums -/

def members (d : Deployment B) : Finset Address := (d.validators.map (·.1)).toFinset

theorem card_members_le (d : Deployment B) : (members d).card ≤ d.validators.length := by
  refine (toFinset_card_le _).trans ?_
  rw [length_map]

section

variable (h : ClusterSound d c) (hfree : CollisionFree (hashed c))

include h hfree

theorem exists_quorum (hcertified : Certified (c i).node number phase hash) :
    ∃ (data : VoteData) (voters : Finset Address), data.blockNumber = number ∧
      data.phase = phase ∧ data.blockHash = hash ∧ voters ⊆ members d ∧
      Quorum.size d.validators.length ≤ voters.card ∧
      ∀ v ∈ voters, v ∉ d.byzantine → ∃ cast ∈ (c v).signed, cast.data = data := by
  obtain ⟨acc, hlookup, hhash, hquorum⟩ := hcertified
  have htallied := (h.sound i).accumulators _ acc hlookup
  have hkey := htallied.key
  simp only [Prod.mk.injEq] at hkey
  have hentry : ∀ v ∈ acc.votes.keys.toFinset, ∃ vote pubkey,
      acc.votes.lookup v = some (vote, pubkey) := by
    intro v hv
    rw [mem_toFinset] at hv
    obtain ⟨⟨vote, pubkey⟩, hentry⟩ := Option.isSome_iff_exists.mp (AList.lookup_isSome.mpr hv)
    exact ⟨vote, pubkey, hentry⟩
  refine ⟨acc.data, acc.votes.keys.toFinset, hkey.1, hkey.2, hhash, ?_, ?_, ?_⟩
  · intro v hv
    obtain ⟨vote, pubkey, hvote⟩ := hentry v hv
    obtain ⟨-, hvoter, hscreen⟩ := htallied.votes v vote pubkey hvote
    have hmember := (screen_eq_none hscreen).member
    rw [hvoter, (h.committee i).contains] at hmember
    unfold ValidatorSet.contains at hmember
    rw [build_validators] at hmember
    exact mem_toFinset.mpr (contains_iff_mem.mp hmember)
  · rw [toFinset_card_of_nodup acc.votes.keys_nodup, AList.keys, keys, length_map]
    rw [(h.committee i).quorum, ValidatorSet.quorum_eq, build_validators, length_map] at hquorum
    exact hquorum
  · intro v hv hcorrect
    obtain ⟨vote, pubkey, hvote⟩ := hentry v hv
    obtain ⟨cast, hcast, hdigest⟩ := h.authentic i _ acc v vote pubkey hlookup hvote hcorrect
    refine ⟨cast, hcast, ?_⟩
    rw [← (htallied.votes v vote pubkey hvote).1]
    have hreceived := (h.sound i).counted _ acc v vote pubkey hlookup hvote
    exact VoteData.signingBytes_injective (hfree.eq ⟨v, .inr (.inl ⟨cast, hcast, rfl⟩)⟩
      ⟨i, .inr (.inr ⟨vote, pubkey, hreceived, rfl⟩)⟩ hdigest)

theorem exists_supported (hcertified : Certified (c i).node number phase hash) :
    ∃ j data, data.blockNumber = number ∧ data.phase = phase ∧ data.blockHash = hash ∧
      Supported (c j).node (c j).received data := by
  obtain ⟨data, voters, hnumber, hphase, hhash, -, hcard, hsigned⟩ := exists_quorum h hfree hcertified
  obtain ⟨j, hj, hcorrect⟩ := Quorum.exists_correct d.few hcard
  obtain ⟨cast, hcast, hdata⟩ := hsigned j hj hcorrect
  refine ⟨j, data, hnumber, hphase, hhash, ?_⟩
  rw [← hdata]
  exact ((h.sound j).voted cast hcast).2

theorem exists_proposed (hcertified : Certified (c i).node number 2 hash) :
    ∃ j block, Proposed (c j).received block ∧ block.header.hash = hash ∧
      block.header.number = number := by
  obtain ⟨j, data, hnumber, hphase, hhash, hsupported⟩ := exists_supported h hfree hcertified
  cases hsupported with
  | prepare block _ => cases hphase
  | preCommit _ hone _ =>
    rw [hone] at hphase
    cases hphase
  | commit _ _ hpre =>
    rw [hnumber, hhash] at hpre
    obtain ⟨j, data, hnumber, hphase, hhash, hsupported⟩ := exists_supported h hfree hpre
    cases hsupported with
    | prepare block _ => cases hphase
    | commit _ htwo _ =>
      rw [htwo] at hphase
      cases hphase
    | preCommit _ _ hprepare =>
      rw [hnumber, hhash] at hprepare
      obtain ⟨j, data, hnumber, hphase, hhash, hsupported⟩ := exists_supported h hfree hprepare
      cases hsupported with
      | prepare block hproposed => exact ⟨j, block, hproposed, hhash, hnumber⟩
      | preCommit _ hone _ =>
        rw [hone] at hphase
        cases hphase
      | commit _ htwo _ =>
        rw [htwo] at hphase
        cases hphase

/-! ## Agreement -/

theorem certified_of_committed (hcommitted : .committed block qc ∈ (c i).emitted) :
    Proposed (c i).received block ∧
    Certified (c i).node block.header.number 2 block.header.hash := by
  obtain ⟨hproposed, number, hcertified⟩ := (h.sound i).committed block qc hcommitted
  obtain ⟨j, other, hother, hhash, hnumber⟩ := exists_proposed h hfree hcertified
  have hencode : other.header.canonicalEncode = block.header.canonicalEncode :=
    hfree.eq ⟨j, .inl ⟨other, hother, rfl⟩⟩ ⟨i, .inl ⟨block, hproposed, rfl⟩⟩ hhash
  obtain ⟨-, -, -, -, hsame, -⟩ := SealedHeader.fields_of_canonicalEncode hencode
  rw [← hsame, hnumber]
  exact ⟨hproposed, hcertified⟩

theorem hash_eq_of_committed
    {block' : SealedBlock} {qc' : QuorumCertificate} (hi : .committed block qc ∈ (c i).emitted)
    (hj : .committed block' qc' ∈ (c j).emitted)
    (hheight : block.header.number = block'.header.number) :
    block.header.hash = block'.header.hash := by
  obtain ⟨-, hcertified⟩ := certified_of_committed h hfree hi
  obtain ⟨-, hcertified'⟩ := certified_of_committed h hfree hj
  obtain ⟨data, voters, hnumber, hphase, hhash, hmembers, hcard, hsigned⟩ :=
    exists_quorum h hfree hcertified
  obtain ⟨data', voters', hnumber', hphase', hhash', hmembers', hcard', hsigned'⟩ :=
    exists_quorum h hfree hcertified'
  obtain ⟨v, hv, hv', hcorrect⟩ := Quorum.exists_correct_inter (card_members_le d) d.few hmembers
    hmembers' hcard hcard'
  obtain ⟨cast, hcast, hdata⟩ := hsigned v hv hcorrect
  obtain ⟨cast', hcast', hdata'⟩ := hsigned' v hv' hcorrect
  -- a validator in both quorums has signed one vote only for this round and phase
  have hsame : cast.data = cast'.data := by
    refine (h.sound v).unique cast hcast cast' hcast' ?_
    rw [hdata, hdata', hnumber, hnumber', hphase, hphase', hheight]
  rw [← hhash, ← hhash', ← hdata, ← hdata', hsame]

end

def SingleBody (d : Deployment B) (c : Address → Replica) : Prop :=
  ∀ i j block block', i ∉ d.byzantine → j ∉ d.byzantine → Proposed (c i).received block →
    Proposed (c j).received block' → block.header.hash = block'.header.hash → block = block'

/-- Correct nodes that commit blocks of one height commit one hash. If no two proposals to them
had one hash, they commit one block. -/
theorem agreement (d : Deployment B) (run : List Delivery)
    (hrun : Meets (deliver B) (Admissible d) d.init run)
    (hfree : CollisionFree (hashed (run.foldl (deliver B) d.init))) {i j : Address}
    (hi : i ∉ d.byzantine) (hj : j ∉ d.byzantine) {block block' : SealedBlock}
    {qc qc' : QuorumCertificate}
    (hcommitted : .committed block qc ∈ (run.foldl (deliver B) d.init i).emitted)
    (hcommitted' : .committed block' qc' ∈ (run.foldl (deliver B) d.init j).emitted)
    (hheight : block.header.number = block'.header.number) :
    block.header.hash = block'.header.hash ∧
      (SingleBody d (run.foldl (deliver B) d.init) → block = block') := by
  have hsound : ClusterSound d (run.foldl (deliver B) d.init) :=
    foldl_of_meets (fun c a hc ha => hc.deliver ha) (clusterSound_init d) hrun
  have hhash := hash_eq_of_committed hsound hfree hcommitted hcommitted' hheight
  refine ⟨hhash, fun hsingle => ?_⟩
  exact hsingle i j block block' hi hj (certified_of_committed hsound hfree hcommitted).1
    (certified_of_committed hsound hfree hcommitted').1 hhash

/-! ## Checking runs -/

def admits (d : Deployment B) (c : Address → Replica) (a : Delivery) : Bool :=
  match a.input with
  | .vote vote pubkey =>
    decide (vote.voter ∈ d.byzantine) || pubkey ≠ B.toPubkey (d.privKey vote.voter) ||
      !B.verifySingle vote.signature pubkey vote.data.digest ||
      (c vote.voter).signed.any fun cast => cast.data.digest = vote.data.digest
  | .registerPubkey _ _ => false
  | .updateValidatorSet _ => false
  | _ => true

def admitsAll (d : Deployment B) (c : Address → Replica) : List Delivery → Bool
  | [] => true
  | a :: rest => admits d c a && admitsAll d (deliver B c a) rest

theorem admissible_of_admits (h : admits d c a = true) : Admissible d c a := by
  unfold admits at h
  constructor
  · cases hinput : a.input with
    | registerPubkey addr pk | updateValidatorSet addrs =>
      rw [hinput] at h
      cases h
    | _ => trivial
  intro vote pubkey hinput hcorrect hkey hsigned
  rw [hinput] at h
  simpa [hcorrect, hkey, hkey ▸ hsigned] using h

theorem meets_of_admitsAll (h : admitsAll d c run = true) :
    Meets (deliver B) (Admissible d) c run := by
  induction run generalizing c with
  | nil => exact meets_nil
  | cons a rest ih =>
    obtain ⟨ha, hrest⟩ := Bool.and_eq_true_iff.mp h
    exact meets_cons.mpr ⟨admissible_of_admits ha, ih hrest⟩

def hashedBy (r : Replica) : List Bytes :=
  r.signed.map (·.data.signingBytes) ++ r.received.filterMap fun
    | .proposal block _ => some block.header.canonicalEncode
    | .vote vote _ => some vote.data.signingBytes
    | _ => none

theorem hashed_subset {l : List Bytes} (h : ∀ i, ∀ s ∈ hashedBy (c i), s ∈ l) :
    hashed c ⊆ {s | s ∈ l} := by
  intro s hs
  obtain ⟨i, hs⟩ := hs
  refine h i s ?_
  rcases hs with ⟨block, ⟨parentQc, hmem⟩, hs⟩ | ⟨v, hv, hs⟩ | ⟨v, pubkey, hmem, hs⟩ <;> rw [hs]
  · exact mem_append_right _ (mem_filterMap.mpr ⟨_, hmem, rfl⟩)
  · exact mem_append_left _ (mem_map.mpr ⟨v, hv, rfl⟩)
  · exact mem_append_right _ (mem_filterMap.mpr ⟨_, hmem, rfl⟩)

theorem foldl_deliver_of_notMem (h : ∀ a ∈ run, i ≠ a.node) : run.foldl (deliver B) c i = c i := by
  induction run generalizing c with
  | nil => rfl
  | cons a rest ih =>
    refine (ih fun b hb => h b (mem_cons_of_mem _ hb)).trans ?_
    exact deliver_of_ne (h a mem_cons_self)

def committedBlocks (r : Replica) : List SealedBlock :=
  r.emitted.filterMap fun
    | .committed block _ => some block
    | _ => none

theorem exists_committed (h : committedBlocks r = [block]) :
    ∃ qc, .committed block qc ∈ r.emitted := by
  have hmem : block ∈ committedBlocks r := by
    rw [h]
    exact mem_singleton_self _
  obtain ⟨event, hevent, heq⟩ := mem_filterMap.mp hmem
  cases event with
  | committed b qc =>
    cases heq
    exact ⟨qc, hevent⟩
  | voteCast v => cases heq
  | timeout round => cases heq

/-! ## A split -/

def sampleKey (a : Address) : Bytes :=
  if a = 0xa1 then [1] else if a = 0xa2 then [2] else if a = 0xa3 then [3] else [4]

/-- Four validators, of which `0xa1`, the proposer of round 1, is Byzantine. -/
def fourDeployment : Deployment plainBls where
  validators := [(0xa4, [4]), (0xa1, [1]), (0xa2, [2]), (0xa3, [3])]
  nonempty := by simp
  privKey := sampleKey
  genesisEpochSeed := none
  byzantine := {0xa1}
  few := by decide
  keys := by decide +kernel

def emptyBlock : SealedBlock := sampleBlock 1 [] []

def filledBlock : SealedBlock := sampleBlock 1 [] [.basic 0xd1 0 (some 0xd2) 1 []]

def phaseVote (phase : UInt8) (voter : Address) : Input :=
  .vote (SafetyRules.sign plainBls ⟨emptyBlock.header.hash, 1, phase, 1⟩
    (.new plainBls (sampleKey voter) voter)) (sampleKey voter)

/-- The votes of `0xa1`, `0xa2` and `0xa3` in a phase reach `0xa2` and `0xa3`. -/
def phaseVotes (phase : UInt8) : List Delivery :=
  [0xa2, 0xa3].flatMap fun node => [0xa1, 0xa2, 0xa3].map fun voter => ⟨node, phaseVote phase voter⟩

/-- The proposer sends `0xa2` the empty block and `0xa3` the other one. -/
def splitRun : List Delivery :=
  ⟨0xa2, .proposal emptyBlock (syntheticQc emptyBlock)⟩ ::
    ⟨0xa3, .proposal filledBlock (syntheticQc filledBlock)⟩ ::
    (phaseVotes 0 ++ phaseVotes 1 ++ phaseVotes 2)

def splitEnd : Address → Replica := splitRun.foldl (deliver plainBls) fourDeployment.init

def splitStrings : List Bytes :=
  emptyBlock.header.canonicalEncode :: [0, 1, 2].map fun phase =>
    VoteData.signingBytes ⟨emptyBlock.header.hash, 1, phase, 1⟩

theorem splitEnd_checks : admitsAll fourDeployment fourDeployment.init splitRun = true ∧
    (∀ s ∈ hashedBy (splitEnd 0xa2), s ∈ splitStrings) ∧
    (∀ s ∈ hashedBy (splitEnd 0xa3), s ∈ splitStrings) ∧
    committedBlocks (splitEnd 0xa2) = [emptyBlock] ∧
    committedBlocks (splitEnd 0xa3) = [filledBlock] := by
  decide +kernel

theorem splitEnd_free : CollisionFree (hashed splitEnd) := by
  obtain ⟨-, hall2, hall3, -⟩ := splitEnd_checks
  have hfree : CollisionFree {s | s ∈ splitStrings} := collisionFree_of_nodup (by decide +kernel)
  refine hfree.mono (hashed_subset fun i => ?_)
  by_cases h2 : i = 0xa2
  · rw [h2]
    exact hall2
  by_cases h3 : i = 0xa3
  · rw [h3]
    exact hall3
  have hidle : splitEnd i = fourDeployment.init i := by
    have hnodes : ∀ a ∈ splitRun, a.node = 0xa2 ∨ a.node = 0xa3 := by decide +kernel
    refine foldl_deliver_of_notMem fun a ha => ?_
    rcases hnodes a ha with hnode | hnode <;> rw [hnode]
    · exact h2
    · exact h3
  rw [hidle]
  exact nofun

/-- In the split, the two nodes commit one hash. -/
theorem split_one_hash : ∃ block block', committedBlocks (splitEnd 0xa2) = [block] ∧
    committedBlocks (splitEnd 0xa3) = [block'] ∧ block.header.hash = block'.header.hash := by
  obtain ⟨hadmits, -, -, hempty, hfilled⟩ := splitEnd_checks
  obtain ⟨qc, hcommitted⟩ := exists_committed hempty
  obtain ⟨qc', hcommitted'⟩ := exists_committed hfilled
  exact ⟨emptyBlock, filledBlock, hempty, hfilled,
    (agreement fourDeployment splitRun (meets_of_admitsAll hadmits) splitEnd_free (by decide)
      (by decide) hcommitted hcommitted' rfl).1⟩

/-- They commit different blocks at the same height, with one Byzantine validator of four. -/
theorem bodies_disagree :
    Meets (deliver plainBls) (Admissible fourDeployment) fourDeployment.init splitRun ∧
    CollisionFree (hashed splitEnd) ∧ committedBlocks (splitEnd 0xa2) = [emptyBlock] ∧
    committedBlocks (splitEnd 0xa3) = [filledBlock] ∧
    emptyBlock.header.number = filledBlock.header.number ∧ emptyBlock ≠ filledBlock := by
  obtain ⟨hadmits, -, -, hempty, hfilled⟩ := splitEnd_checks
  exact ⟨meets_of_admitsAll hadmits, splitEnd_free, hempty, hfilled, rfl, by decide +kernel⟩

end ZbxChain.HotStuff
