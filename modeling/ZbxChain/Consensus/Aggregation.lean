import ZbxChain.Consensus.Tally

/-!
# Vote aggregation

A quorum of valid votes on one `VoteData` should give a certificate, whatever else arrives. The
accumulator of a round and phase takes its data from the first valid vote, and ignores all votes on
other data from then on.
-/

namespace ZbxChain.HotStuff

open HotStuffConsensus List
open VoteAccumulator (Counts)

/-! ## Certificates that are formed -/

structure Collector where
  replica : Replica
  formed : List QuorumCertificate

variable (B : BlsScheme)

def formedOn (r : Replica) : Input → Option QuorumCertificate
  | .vote vote pubkey => if r.aborted then none else formedBy (takeVote B vote pubkey r.node)
  | _ => none

def collect (c : Collector) (input : Input) : Collector :=
  ⟨c.replica.receive B input, c.formed ++ (formedOn B c.replica input).toList⟩

def votedData : Input → Option VoteData
  | .vote vote _ => some vote.data
  | _ => none

def inSlot (n : HotStuffConsensus) (d : VoteData) : Input → Bool
  | .vote vote pubkey => (n.screen B vote pubkey).isNone &&
    decide ((vote.data.blockNumber, vote.data.phase) = (d.blockNumber, d.phase))
  | _ => false

/-- Aggregating checked votes of different validators on the same data does not fail. -/
def Aggregates (n : HotStuffConsensus) : Prop :=
  ∀ votes : List (Vote × Bytes), votes ≠ [] → (votes.map (·.1.voter)).Nodup →
    (∀ e ∈ votes, n.screen B e.1 e.2 = none) →
    (∀ e ∈ votes, ∀ e' ∈ votes, e.1.data = e'.1.data) →
    (B.aggregateSignatures (votes.map (·.1.signature))).isSome

section

variable {B : BlsScheme} {n₀ n n' : HotStuffConsensus} {d : VoteData} {voters : Finset Address}
  {done : List Input} {input : Input} {formed extra : List QuorumCertificate} {vote : Vote}
  {pubkey : Bytes} {acc : VoteAccumulator} {key : UInt64 × UInt8}

theorem inSlot_vote : inSlot B n d (.vote vote pubkey) = true ↔ n.screen B vote pubkey = none ∧
      (vote.data.blockNumber, vote.data.phase) = (d.blockNumber, d.phase) := by
  unfold inSlot
  simp

theorem exists_of_inSlot (h : inSlot B n d input = true) :
    ∃ vote pubkey, input = .vote vote pubkey := by
  cases input with
  | vote vote pubkey => exact ⟨vote, pubkey, rfl⟩
  | _ => cases h

theorem exists_formQc (hagg : Aggregates B n) (hacc : Tallied B n key acc)
    (hne : acc.votes.entries ≠ []) : ∃ qc, acc.formQc B = some qc := by
  have hentry : ∀ e ∈ acc.votes.entries, e.2.1.data = acc.data ∧ e.2.1.voter = e.1 ∧
      n.screen B e.2.1 e.2.2 = none := fun e he =>
    hacc.votes e.1 e.2.1 e.2.2 (AList.mem_lookup_iff.mpr he)
  have hvoters : (acc.votes.entries.map (·.2)).map (·.1.voter) = acc.votes.keys := by
    rw [map_map]
    exact map_congr_left fun e he => (hentry e he).2.1
  have hsome : (B.aggregateSignatures
      ((acc.votes.entries.map (·.2)).map (·.1.signature))).isSome := by
    refine hagg _ (by simpa using hne) ?_ ?_ ?_
    · rw [hvoters]
      exact acc.votes.keys_nodup
    · intro e he
      obtain ⟨entry, hmem, rfl⟩ := mem_map.mp he
      exact (hentry entry hmem).2.2
    intro e he e' he'
    obtain ⟨entry, hmem, rfl⟩ := mem_map.mp he
    obtain ⟨entry', hmem', rfl⟩ := mem_map.mp he'
    exact (hentry entry hmem).1.trans (hentry entry' hmem').1.symm
  obtain ⟨signature, hsignature⟩ := Option.isSome_iff_exists.mp hsome
  exact ⟨_, Option.map_eq_some_iff.mpr ⟨signature, hsignature, rfl⟩⟩

/-! ## The invariant -/

def slotOf (d : VoteData) (n : HotStuffConsensus) : Option VoteAccumulator :=
  n.voteAccumulators.lookup (d.blockNumber, d.phase)

/-- The state of a node that has been given `done`. The first valid vote of the round and
phase of `d` has opened the accumulator, and if it was on `d`, the votes of `voters` on `d`
are counted, and there is a certificate for `d` unless they are fewer than a quorum. -/
structure Collecting (B : BlsScheme) (n₀ : HotStuffConsensus) (d : VoteData)
    (voters : Finset Address) (done : List Input) (n : HotStuffConsensus)
    (formed : List QuorumCertificate) : Prop where
  committee : SameCommittee n₀ n
  sound : AccumulatorsSound B n
  opened : (slotOf d n).map (·.data) = (done.find? (inSlot B n₀ d)).bind votedData
  seen : ∀ v s, n.seenVotes.lookup (d.blockNumber, d.phase, v) = some s →
    slotOf d n ≠ none ∧ (v ∈ voters → s.hash = d.blockHash)
  certified : ∀ qc ∈ formed, qc.voteData = d → ∃ acc, slotOf d n = some acc ∧ acc.data = d
  counted : ∀ acc, slotOf d n = some acc → acc.data = d →
    (∀ vote pubkey, .vote vote pubkey ∈ done → vote.voter ∈ voters →
      n₀.screen B vote pubkey = none → vote.data = d → acc.votes.lookup vote.voter ≠ none) ∧
    ((∃ qc ∈ formed, qc.voteData = d) ∨ acc.votes.entries.length < acc.quorum)

theorem accumulatorFor_of_slot
    (hslotKey : (vote.data.blockNumber, vote.data.phase) = (d.blockNumber, d.phase)) :
    n.accumulatorFor vote.data = (slotOf d n).getD (.new vote.data n.validatorSet.quorum) := by
  unfold accumulatorFor slotOf
  rw [hslotKey]

section

variable (h : Collecting B n₀ d voters done n formed)

include h

theorem find?_eq_none_of_slotOf (hnone : slotOf d n = none) :
    done.find? (inSlot B n₀ d) = none := by
  cases hfind : done.find? (inSlot B n₀ d) with
  | none => rfl
  | some first =>
    obtain ⟨vote, pubkey, rfl⟩ := exists_of_inSlot (find?_some hfind)
    have hopened := h.opened
    rw [hnone, hfind] at hopened
    cases hopened

theorem Collecting.skip (hcommittee : SameCommittee n n') (hsound : AccumulatorsSound B n')
    (hslot : slotOf d n' = slotOf d n)
    (hseen : ∀ v s, n'.seenVotes.lookup (d.blockNumber, d.phase, v) = some s →
      n.seenVotes.lookup (d.blockNumber, d.phase, v) = some s)
    (hextra : ∀ qc ∈ extra, qc.voteData ≠ d) (hinput : inSlot B n₀ d input = false) :
    Collecting B n₀ d voters (done ++ [input]) n' (formed ++ extra) := by
  refine ⟨h.committee.trans hcommittee, hsound, ?_, ?_, ?_, ?_⟩
  · rw [hslot, h.opened, find?_append, find?_cons_of_neg (by simp [hinput])]
    simp
  · rw [hslot]
    exact fun v s hs => h.seen v s (hseen v s hs)
  · rw [hslot]
    intro qc hqc hdata
    rcases mem_append.mp hqc with hold | hnew
    · exact h.certified qc hold hdata
    · exact absurd hdata (hextra qc hnew)
  rw [hslot]
  intro acc hacc hdata
  obtain ⟨hcounted, hformed⟩ := h.counted acc hacc hdata
  constructor
  · intro vote pubkey hmem hvoter hscreen hvote
    rcases mem_append.mp hmem with hold | hnew
    · exact hcounted vote pubkey hold hvoter hscreen hvote
    cases mem_singleton.mp hnew
    rw [inSlot_vote.mpr ⟨hscreen, by rw [hvote]⟩] at hinput
    cases hinput
  rcases hformed with ⟨qc, hqc, hqcdata⟩ | hfew
  · exact .inl ⟨qc, mem_append_left _ hqc, hqcdata⟩
  · exact .inr hfew

theorem Collecting.congr (hsame : SameTally n n') : Collecting B n₀ d voters done n' formed := by
  have hslot : slotOf d n' = slotOf d n := by
    unfold slotOf
    rw [hsame.accumulators]
  refine ⟨h.committee.trans hsame.committee, h.sound.congr hsame, ?_, ?_, ?_, ?_⟩ <;> rw [hslot]
  · exact h.opened
  · exact fun v s hs => h.seen v s (hsame.seenVotes _ _ hs)
  · exact h.certified
  · exact h.counted

/-- A vote of the slot is either its first one or comes after the one that opened it. -/
theorem Collecting.opened_append (hin : inSlot B n₀ d (.vote vote pubkey) = true) :
    ((done ++ [Input.vote vote pubkey]).find? (inSlot B n₀ d)).bind votedData =
      some ((slotOf d n).getD (.new vote.data n.validatorSet.quorum)).data := by
  rw [find?_append]
  cases hold : slotOf d n with
  | none =>
    rw [find?_eq_none_of_slotOf h hold, Option.none_or, find?_cons_of_pos hin]
    rfl
  | some old =>
    have hopened := h.opened
    rw [hold] at hopened
    cases hfind : done.find? (inSlot B n₀ d) with
    | none =>
      rw [hfind] at hopened
      cases hopened
    | some first =>
      rw [hfind] at hopened
      exact hopened.symm

theorem Collecting.counted_before {acc : VoteAccumulator}
    (hdata : ((slotOf d n).getD acc).data = d) (hmem : .vote vote pubkey ∈ done)
    (hvoter : vote.voter ∈ voters) (hscreen : n₀.screen B vote pubkey = none)
    (hvote : vote.data = d) : ((slotOf d n).getD acc).votes.lookup vote.voter ≠ none := by
  have hin : inSlot B n₀ d (.vote vote pubkey) = true :=
    inSlot_vote.mpr ⟨hscreen, by rw [hvote]⟩
  cases hslot : slotOf d n with
  | none => exact absurd hin (find?_eq_none.mp (find?_eq_none_of_slotOf h hslot) _ hmem)
  | some old =>
    rw [hslot] at hdata
    exact (h.counted old hslot hdata).1 vote pubkey hmem hvoter hscreen hvote

theorem Collecting.reach (hcommittee : SameCommittee n n') (hsound : AccumulatorsSound B n')
    (hscreen : n₀.screen B vote pubkey = none)
    (hslotKey : (vote.data.blockNumber, vote.data.phase) = (d.blockNumber, d.phase))
    (hslot : slotOf d n' = some acc) (hdata : acc.data = (n.accumulatorFor vote.data).data)
    (hseen : ∀ v s, n'.seenVotes.lookup (d.blockNumber, d.phase, v) = some s →
      v ∈ voters → s.hash = d.blockHash) (hformed : ∀ qc ∈ extra, qc.voteData = d → acc.data = d)
    (hkept : ∀ v, (n.accumulatorFor vote.data).votes.lookup v ≠ none → acc.votes.lookup v ≠ none)
    (hvoter : vote.voter ∈ voters → vote.data = d → acc.data = d →
      acc.votes.lookup vote.voter ≠ none)
    (hquorum : acc.data = d → (∃ qc ∈ formed ++ extra, qc.voteData = d) ∨
      acc.votes.entries.length < acc.quorum) :
    Collecting B n₀ d voters (done ++ [.vote vote pubkey]) n' (formed ++ extra) := by
  have hin : inSlot B n₀ d (.vote vote pubkey) = true := inSlot_vote.mpr ⟨hscreen, hslotKey⟩
  have hfor := accumulatorFor_of_slot (n := n) hslotKey
  refine ⟨h.committee.trans hcommittee, hsound, ?_, ?_, ?_, ?_⟩
  · rw [hslot, h.opened_append hin, ← hfor, ← hdata]
    rfl
  · rw [hslot]
    exact fun v s hs => ⟨nofun, hseen v s hs⟩
  · rw [hslot]
    intro qc hqc hqcdata
    refine ⟨acc, rfl, ?_⟩
    rcases mem_append.mp hqc with hold | hnew
    · obtain ⟨old, hslotOld, hdataOld⟩ := h.certified qc hold hqcdata
      rw [hdata, hfor, hslotOld]
      exact hdataOld
    · exact hformed qc hnew hqcdata
  · rw [hslot]
    intro acc' hacc' haccd
    cases hacc'
    refine ⟨?_, hquorum haccd⟩
    intro vote' pubkey' hmem hvoter' hscreen' hvote'
    rcases mem_append.mp hmem with hold | hnew
    · -- an earlier vote is in the accumulator that was there
      refine hkept _ ?_
      rw [hdata, hfor] at haccd
      rw [hfor]
      exact h.counted_before haccd hold hvoter' hscreen' hvote'
    · cases mem_singleton.mp hnew
      exact hvoter hvoter' hvote' haccd

end

/-! ## Steps -/

theorem lookup_noteSeen {key : UInt64 × UInt8 × Address} {s : SeenVote}
    (h : (n.noteSeen vote pubkey).seenVotes.lookup key = some s) :
    n.seenVotes.lookup key = some s ∨ key = seenKey vote ∧ s.hash = vote.data.blockHash := by
  unfold noteSeen at h
  split at h
  · exact .inl h
  rcases FiniteMap.lookup_insert_cases h with ⟨hkey, rfl⟩ | hseen
  · exact .inr ⟨hkey, rfl⟩
  · exact .inl hseen

theorem lookup_seen_takeVote {key : UInt64 × UInt8 × Address} {s : SeenVote}
    (h : (finalState (takeVote B vote pubkey n)).seenVotes.lookup key = some s) :
    n.seenVotes.lookup key = some s ∨
      n.screen B vote pubkey = none ∧ key = seenKey vote ∧ s.hash = vote.data.blockHash := by
  rcases takeVote_cases B vote pubkey n with
    ⟨reason, -, htake⟩ | ⟨-, -, e, htake⟩ | ⟨hscreen, -, htake⟩
  · rw [htake] at h
    left
    cases reason <;> exact h
  · rw [htake] at h
    exact .inl h
  have hnoted : (n.noteSeen vote pubkey).seenVotes.lookup key = some s := by
    rw [htake] at h
    rcases accumulate_cases B vote pubkey (n.noteSeen vote pubkey) with
      ⟨-, hadd | ⟨e, hadd⟩⟩ | ⟨-, ⟨-, hadd⟩ | ⟨-, ⟨-, hadd⟩ | ⟨qc, -, hadd⟩⟩⟩ <;>
    · rw [hadd] at h
      exact h
  rcases lookup_noteSeen hnoted with hold | ⟨hkey, hhash⟩
  · exact .inl hold
  · exact .inr ⟨hscreen, hkey, hhash⟩

theorem Collecting.takeOther (h : Collecting B n₀ d voters done n formed)
    (hother : inSlot B n₀ d (.vote vote pubkey) = false) :
    Collecting B n₀ d voters (done ++ [.vote vote pubkey]) (finalState (takeVote B vote pubkey n))
      (formed ++ (formedBy (takeVote B vote pubkey n)).toList) := by
  have heffect := voteEffect_takeVote B vote pubkey n
  have hnot : n.screen B vote pubkey = none →
      (d.blockNumber, d.phase) ≠ (vote.data.blockNumber, vote.data.phase) := by
    intro hscreen hkey
    rw [h.committee.screen] at hscreen
    rw [inSlot_vote.mpr ⟨hscreen, hkey.symm⟩] at hother
    cases hother
  refine h.skip (SameFrame.committee heffect.frame) (accumulatorsSound_takeVote h.sound vote pubkey)
    ?_ ?_ ?_ hother
  · have haccs := heffect.accumulators
    unfold slotOf
    generalize (finalState (takeVote B vote pubkey n)).voteAccumulators = accs at haccs
    cases haccs with
    | same => rfl
    | opened hscreen | counted hscreen _ => exact AList.lookup_insert_ne (hnot hscreen)
  · intro v s hs
    rcases lookup_seen_takeVote hs with hold | ⟨hscreen, hkey, -⟩
    · exact hold
    refine absurd ?_ (hnot hscreen)
    unfold seenKey at hkey
    simp only [Prod.mk.injEq] at hkey ⊢
    exact ⟨hkey.1, hkey.2.1⟩
  intro qc hqc hdata
  have hsome : formedBy (takeVote B vote pubkey n) = some qc := by simpa using hqc
  obtain ⟨hqcdata, hvotedata, -⟩ := heffect.formed qc hsome
  have hd : vote.data = d := hvotedata.trans (hqcdata.symm.trans hdata)
  exact hnot (formed_from_counted hsome).1 (by rw [hd])

theorem Aggregates.congr (h : Aggregates B n) (hsame : SameCommittee n n') : Aggregates B n' := by
  intro votes hne hnodup hscreen hdata
  refine h votes hne hnodup (fun e he => ?_) hdata
  rw [← hsame.screen]
  exact hscreen e he

theorem exists_formQc_counted (hagg : Aggregates B n) (hsound : AccumulatorsSound B n)
    (hscreen : n.screen B vote pubkey = none)
    (hcounts : Counts B vote pubkey (n.accumulatorFor vote.data)) :
    ∃ qc, (n.counted vote pubkey).formQc B = some qc := by
  refine exists_formQc hagg ((tallied_accumulatorFor hsound vote.data).record hcounts hscreen) ?_
  have hlength : (n.counted vote pubkey).votes.entries.length = _ := length_record hcounts
  exact length_pos_iff.mp (by omega)

theorem takeVote_no_panic (hagg : Aggregates B n) (hsound : AccumulatorsSound B n)
    (vote : Vote) (pubkey : Bytes) : takeVote B vote pubkey n ≠ .error .panic n' := by
  intro hpanic
  rcases takeVote_cases B vote pubkey n with
    ⟨reason, -, htake⟩ | ⟨-, -, e, htake⟩ | ⟨hscreen, -, htake⟩
  · rw [htake] at hpanic
    cases hpanic
  · rw [htake] at hpanic
    cases hpanic
  have hcases := accumulate_cases B vote pubkey (n.noteSeen vote pubkey)
  rw [noteSeen_accumulatorFor, noteSeen_counted] at hcases
  rw [htake] at hpanic
  rcases hcases with ⟨-, hadd | ⟨e, hadd⟩⟩ | ⟨hcounts, ⟨-, hadd⟩ | ⟨-, ⟨hnone, -⟩ | ⟨qc, -, hadd⟩⟩⟩
  · rw [hadd] at hpanic
    cases hpanic
  · rw [hadd] at hpanic
    cases hpanic
  · rw [hadd] at hpanic
    cases hpanic
  · obtain ⟨qc, hqc⟩ := exists_formQc_counted hagg hsound hscreen hcounts
    rw [hnone] at hqc
    cases hqc
  · rw [hadd] at hpanic
    cases hpanic

theorem lookup_counted_voter : (n.counted vote pubkey).votes.lookup vote.voter ≠ none :=
  fun hnone => by cases (AList.lookup_insert _).symm.trans hnone

theorem lookup_counted_ne_none {v : Address}
    (hv : (n.accumulatorFor vote.data).votes.lookup v ≠ none) :
    (n.counted vote pubkey).votes.lookup v ≠ none := by
  by_cases heq : v = vote.voter
  · exact heq ▸ lookup_counted_voter
  · exact fun hnone => hv ((AList.lookup_insert_ne heq).symm.trans hnone)

section

variable (hslotKey : (vote.data.blockNumber, vote.data.phase) = (d.blockNumber, d.phase))

include hslotKey

theorem seenKey_of_slot : seenKey vote = (d.blockNumber, d.phase, vote.voter) := by
  simp only [Prod.mk.injEq] at hslotKey
  unfold seenKey
  rw [hslotKey.1, hslotKey.2]

theorem slotOf_putAccumulator (acc : VoteAccumulator) :
    slotOf d ((n.noteSeen vote pubkey).putAccumulator vote.data acc) = some acc := by
  unfold slotOf
  rw [noteSeen_putAccumulator, ← hslotKey]
  exact AList.lookup_insert _

theorem Collecting.seen_takeVote (pubkey : Bytes) (h : Collecting B n₀ d voters done n formed)
    (hhonest : vote.voter ∈ voters → vote.data = d) (v : Address) (s : SeenVote)
    (hs : (finalState (takeVote B vote pubkey n)).seenVotes.lookup (d.blockNumber, d.phase, v) =
      some s) (hv : v ∈ voters) : s.hash = d.blockHash := by
  rcases lookup_seen_takeVote hs with hold | ⟨-, hkey, hhash⟩
  · exact (h.seen v s hold).2 hv
  rw [seenKey_of_slot hslotKey] at hkey
  cases hkey
  rw [hhash, hhonest hv]

theorem Collecting.certified_or_few (h : Collecting B n₀ d voters done n formed)
    (hdata : (n.accumulatorFor vote.data).data = d) : (∃ qc ∈ formed, qc.voteData = d) ∨
      (n.accumulatorFor vote.data).votes.entries.length < (n.accumulatorFor vote.data).quorum := by
  rw [accumulatorFor_of_slot hslotKey] at hdata ⊢
  cases hslot : slotOf d n with
  | some old =>
    rw [hslot] at hdata
    exact (h.counted old hslot hdata).2
  | none =>
    refine .inr ?_
    rw [n.validatorSet.quorum_eq]
    exact Nat.succ_pos _

theorem Collecting.equivocation {seen : SeenVote} {e : Fault ConsensusError}
    (h : Collecting B n₀ d voters done n formed)
    (hscreen : n₀.screen B vote pubkey = none) (hhonest : vote.voter ∈ voters → vote.data = d)
    (hlookup : n.seenVotes.lookup (seenKey vote) = some seen)
    (hhash : seen.hash ≠ vote.data.blockHash) (htake : takeVote B vote pubkey n = .error e n) :
    Collecting B n₀ d voters (done ++ [.vote vote pubkey]) n (formed ++ []) := by
  rw [seenKey_of_slot hslotKey] at hlookup
  obtain ⟨hopened, hvoters⟩ := h.seen vote.voter seen hlookup
  obtain ⟨acc, hacc⟩ := Option.ne_none_iff_exists'.mp hopened
  have haccFor : n.accumulatorFor vote.data = acc := by
    rw [accumulatorFor_of_slot hslotKey, hacc]
    rfl
  have hseen := h.seen_takeVote hslotKey pubkey hhonest
  rw [htake] at hseen
  refine h.reach (.refl n) h.sound hscreen hslotKey hacc (by rw [haccFor]) hseen nofun ?_ ?_ ?_
  · rw [haccFor]
    exact fun v hv => hv
  · intro hvoter hdata _
    refine absurd (hvoters hvoter) ?_
    rw [← hdata]
    exact hhash
  · intro hdata
    rw [append_nil, ← haccFor]
    exact h.certified_or_few hslotKey (haccFor ▸ hdata)

end

theorem Collecting.takeSlot (hagg : Aggregates B n₀)
    (h : Collecting B n₀ d voters done n formed) (hscreen : n₀.screen B vote pubkey = none)
    (hslotKey : (vote.data.blockNumber, vote.data.phase) = (d.blockNumber, d.phase))
    (hhonest : vote.voter ∈ voters → vote.data = d) :
    Collecting B n₀ d voters (done ++ [.vote vote pubkey]) (finalState (takeVote B vote pubkey n))
      (formed ++ (formedBy (takeVote B vote pubkey n)).toList) := by
  have hcommittee := SameFrame.committee (voteEffect_takeVote B vote pubkey n).frame
  have hsound := accumulatorsSound_takeVote h.sound vote pubkey
  have hscreen' : n.screen B vote pubkey = none := (h.committee.screen vote pubkey).trans hscreen
  have hseen := h.seen_takeVote hslotKey pubkey hhonest
  have hput (acc : VoteAccumulator) :
      slotOf d ((n.noteSeen vote pubkey).putAccumulator vote.data acc) = some acc :=
    slotOf_putAccumulator hslotKey acc
  rcases takeVote_cases B vote pubkey n with
    ⟨reason, hdrop, -⟩ | ⟨-, ⟨seen, hlookup, hhash⟩, e, htake⟩ | ⟨-, -, htake⟩
  · rw [hscreen'] at hdrop
    cases hdrop
  · rw [htake]
    exact h.equivocation hslotKey hscreen hhonest hlookup hhash htake
  have hcases := accumulate_cases B vote pubkey (n.noteSeen vote pubkey)
  rw [noteSeen_accumulatorFor, noteSeen_counted] at hcases
  rw [htake] at hcommittee hsound hseen ⊢
  rcases hcases with ⟨hnot, hadd⟩ | ⟨hcounts, ⟨hfew, hadd⟩ | ⟨-, ⟨hnone, -⟩ | ⟨qc, hqc, hadd⟩⟩⟩
  · -- a vote that does not count is on other data, or of a voter that is counted
    have hrefused (hd : vote.data = d) (hdata : (n.accumulatorFor vote.data).data = d) :
        (n.accumulatorFor vote.data).votes.lookup vote.voter ≠ none :=
      fun hnone => hnot ⟨hd.trans hdata.symm, hnone, (screen_eq_none hscreen').signed⟩
    obtain hadd | ⟨e, hadd⟩ := hadd <;>
    · rw [hadd] at hcommittee hsound hseen ⊢
      refine h.reach hcommittee hsound hscreen hslotKey (hput _) rfl hseen nofun (fun _ hv => hv)
        (fun _ => hrefused) fun hdata => ?_
      simpa [formedBy] using h.certified_or_few hslotKey hdata
  · rw [hadd] at hcommittee hsound hseen ⊢
    exact h.reach hcommittee hsound hscreen hslotKey (hput _) rfl hseen nofun
      (fun _ => lookup_counted_ne_none) (fun _ _ _ => lookup_counted_voter) fun _ => .inr hfew
  · obtain ⟨qc, hqc⟩ := exists_formQc_counted (hagg.congr h.committee) h.sound hscreen' hcounts
    rw [hnone] at hqc
    cases hqc
  · rw [hadd] at hcommittee hsound hseen ⊢
    have hqcdata : qc.voteData = (n.counted vote pubkey).data := VoteAccumulator.formQc_eq_some hqc
    refine h.reach hcommittee hsound hscreen hslotKey (hput _) rfl hseen ?_
      (fun _ => lookup_counted_ne_none) (fun _ _ _ => lookup_counted_voter) fun hdata => ?_
    · intro qc' hqc' hd
      have heq : qc' = qc := by simpa [formedBy, eq_comm] using hqc'
      rw [← hqcdata, ← heq]
      exact hd
    · exact .inl ⟨qc, mem_append_right _ (by simp [formedBy]), hqcdata.trans hdata⟩

theorem handle_no_panic (hagg : Aggregates B n) (hsound : AccumulatorsSound B n)
    (hfixed : Fixed input) : handle B input n ≠ .error .panic n' := by
  intro hpanic
  cases input with
  | proposal block parentQc =>
    have hproposal : onProposal B block parentQc n = .error .panic n' := hpanic
    rcases onProposal_cases B block parentQc n with ⟨-, e, h⟩ | ⟨-, ⟨-, e, h⟩ | ⟨-, h⟩⟩ <;>
    · rw [h] at hproposal
      cases hproposal
  | vote vote pubkey =>
    have hvote : onVote B vote pubkey n = .error .panic n' := hpanic
    rcases onVote_cases B vote pubkey n with
      ⟨m, -, h⟩ | ⟨e, m, htake, h⟩ | ⟨qc, m, -, h⟩ <;> rw [h] at hvote
    · cases hvote
    · cases hvote
      exact takeVote_no_panic hagg hsound vote pubkey htake
    rcases onQc_cases B qc m with ⟨-, hqc⟩ | ⟨-, hqc⟩ | ⟨-, hqc⟩ | ⟨e, hqc⟩ <;>
    · rw [hqc] at hvote
      cases hvote
  | timeout | pruneSeenVotes committedRound | rotateEpochSeed seed => cases hpanic
  | registerPubkey addr pk => exact hfixed
  | updateValidatorSet addrs => exact hfixed

theorem Collecting.collect (hagg : Aggregates B n₀) {c : Collector}
    (hrunning : c.replica.aborted = false)
    (h : Collecting B n₀ d voters done c.replica.node c.formed) (hfixed : Fixed input)
    (hhonest : ∀ vote pubkey, input = .vote vote pubkey → vote.voter ∈ voters →
      n₀.screen B vote pubkey = none →
      (vote.data.blockNumber, vote.data.phase) = (d.blockNumber, d.phase) → vote.data = d) :
    (collect B c input).replica.aborted = false ∧
      Collecting B n₀ d voters (done ++ [input]) (collect B c input).replica.node
        (collect B c input).formed := by
  obtain ⟨hnode, -, -, haborted⟩ := Replica.receive_running B input hrunning
  constructor
  · rw [← Bool.not_eq_true]
    intro htrue
    obtain ⟨n', hpanic⟩ := haborted.mp htrue
    exact handle_no_panic (hagg.congr h.committee) h.sound hfixed hpanic
  unfold HotStuff.collect
  rw [hnode]
  rcases sameTally_handle (B := B) (n := c.replica.node) hfixed with
    ⟨vote, pubkey, rfl, hsame⟩ | ⟨hnot, hsame⟩
  · have hformed : formedOn B c.replica (.vote vote pubkey) =
        formedBy (takeVote B vote pubkey c.replica.node) := if_neg (by simp [hrunning])
    rw [hformed]
    refine Collecting.congr ?_ hsame
    cases hin : inSlot B n₀ d (.vote vote pubkey) with
    | false => exact h.takeOther hin
    | true =>
      obtain ⟨hscreen, hslotKey⟩ := inSlot_vote.mp hin
      exact h.takeSlot hagg hscreen hslotKey fun hv => hhonest vote pubkey rfl hv hscreen hslotKey
  · have hformed : formedOn B c.replica input = none := by
      cases input with
      | vote vote pubkey => exact absurd rfl (hnot vote pubkey)
      | _ => rfl
    have hin : inSlot B n₀ d input = false := by
      cases input with
      | vote vote pubkey => exact absurd rfl (hnot vote pubkey)
      | _ => rfl
    rw [hformed]
    refine h.skip hsame.committee (h.sound.congr hsame) ?_ (fun v s hs => hsame.seenVotes _ _ hs)
      nofun hin
    unfold slotOf
    rw [hsame.accumulators]

theorem collecting_build (B : BlsScheme) (cfg : NodeConfig) (d : VoteData)
    (voters : Finset Address) : Collecting B (cfg.build B) d voters [] (cfg.build B) [] := by
  obtain ⟨seed, keys, hbuild⟩ := cfg.build_eq B
  rw [hbuild]
  exact ⟨.refl _, nofun, rfl, nofun, nofun, nofun⟩

theorem collecting_foldl (hagg : Aggregates B n₀) {c : Collector} {inputs : List Input}
    (hrunning : c.replica.aborted = false)
    (h : Collecting B n₀ d voters done c.replica.node c.formed) (hfixed : ∀ i ∈ inputs, Fixed i)
    (hhonest : ∀ vote pubkey, .vote vote pubkey ∈ inputs → vote.voter ∈ voters →
      n₀.screen B vote pubkey = none →
      (vote.data.blockNumber, vote.data.phase) = (d.blockNumber, d.phase) → vote.data = d) :
    Collecting B n₀ d voters (done ++ inputs) (inputs.foldl (collect B) c).replica.node
      (inputs.foldl (collect B) c).formed := by
  induction inputs generalizing c done with
  | nil =>
    rw [append_nil]
    exact h
  | cons input rest ih =>
    obtain ⟨hrunning', h'⟩ := h.collect hagg hrunning (hfixed input mem_cons_self)
      fun vote pubkey heq => hhonest vote pubkey (heq ▸ mem_cons_self)
    have hrest := ih hrunning' h' (fun i hi => hfixed i (mem_cons_of_mem _ hi))
      fun vote pubkey hmem => hhonest vote pubkey (mem_cons_of_mem _ hmem)
    rw [append_assoc] at hrest
    exact hrest

end

/-- A quorum of validators has sent a node of the driver valid votes on `d`, and none of them a
valid vote on something else in that round and phase. Then a certificate for `d` is formed
exactly when the first valid vote of the round and phase to arrive is on `d`. -/
theorem certificate_forms_iff (cfg : NodeConfig) (inputs : List Input)
    (d : VoteData) (voters : Finset Address) (hagg : Aggregates B (cfg.build B))
    (hfixed : ∀ i ∈ inputs, Fixed i) (hquorum : (cfg.build B).validatorSet.quorum ≤ voters.card)
    (hvotes : ∀ v ∈ voters, ∃ vote pubkey, .vote vote pubkey ∈ inputs ∧ vote.voter = v ∧
      vote.data = d ∧ (cfg.build B).screen B vote pubkey = none)
    (hhonest : ∀ vote pubkey, .vote vote pubkey ∈ inputs → vote.voter ∈ voters →
      (cfg.build B).screen B vote pubkey = none →
      (vote.data.blockNumber, vote.data.phase) = (d.blockNumber, d.phase) → vote.data = d) :
    (∃ qc ∈ (inputs.foldl (collect B) ⟨.start (cfg.build B), []⟩).formed, qc.voteData = d) ↔
      ∀ vote pubkey, inputs.find? (inSlot B (cfg.build B) d) = some (.vote vote pubkey) →
        vote.data = d := by
  have hend := collecting_foldl (c := ⟨.start (cfg.build B), []⟩) hagg rfl
    (collecting_build B cfg d voters) hfixed hhonest
  rw [nil_append] at hend
  have hopened := hend.opened
  constructor
  · rintro ⟨qc, hqc, hdata⟩ vote pubkey hfirst
    obtain ⟨acc, hslot, haccdata⟩ := hend.certified qc hqc hdata
    rw [hslot, hfirst] at hopened
    exact (Option.some.inj hopened).symm.trans haccdata
  intro hfirst
  -- some voter has voted, so there is a first vote, and it is on `d`
  have hpos : 0 < voters.card := by
    rw [(cfg.build B).validatorSet.quorum_eq] at hquorum
    unfold Quorum.size at hquorum
    omega
  obtain ⟨v, hv⟩ := Finset.card_pos.mp hpos
  obtain ⟨vote, pubkey, hmem, hvoter, hdata, hscreen⟩ := hvotes v hv
  have hin : inSlot B (cfg.build B) d (.vote vote pubkey) = true :=
    inSlot_vote.mpr ⟨hscreen, by rw [hdata]⟩
  obtain ⟨first, hfind⟩ := Option.isSome_iff_exists.mp (find?_isSome.mpr ⟨_, hmem, hin⟩)
  obtain ⟨vote₁, pubkey₁, rfl⟩ := exists_of_inSlot (find?_some hfind)
  rw [hfind] at hopened
  obtain ⟨acc, hslot, haccdata⟩ := Option.map_eq_some_iff.mp hopened
  have haccd : acc.data = d := haccdata.trans (hfirst vote₁ pubkey₁ hfind)
  obtain ⟨hcounted, hformed⟩ := hend.counted acc hslot haccd
  refine hformed.resolve_right fun hfew => ?_
  -- all the voters are in the accumulator
  have hsub : voters ⊆ acc.votes.keys.toFinset := by
    intro v hv
    obtain ⟨vote, pubkey, hmem, hvoter, hdata, hscreen⟩ := hvotes v hv
    have hlookup := hcounted vote pubkey hmem (hvoter ▸ hv) hscreen hdata
    rw [hvoter] at hlookup
    rw [mem_toFinset]
    exact AList.lookup_isSome.mp (Option.isSome_iff_ne_none.mpr hlookup)
  have hcard : voters.card ≤ acc.votes.entries.length := by
    refine (Finset.card_le_card hsub).trans ((toFinset_card_le _).trans ?_)
    rw [AList.keys, keys, length_map]
  have hsame := (hend.sound _ _ hslot).quorum.trans hend.committee.quorum
  omega

/-! ## Four validators -/

def fourVote (voter : Address) (key : Bytes) (hash : H256) : Vote :=
  SafetyRules.sign plainBls ⟨hash, 1, 0, 1⟩ (.new plainBls key voter)

def fourInput (voter : Address) (key : Bytes) (hash : H256) : Input :=
  .vote (fourVote voter key hash) key

def threeVotes : List Input :=
  [fourInput 0xa1 [1] 7, fourInput 0xa2 [2] 7, fourInput 0xa3 [3] 7]

theorem plainBls_aggregates (n : HotStuffConsensus) : Aggregates plainBls n := by
  intro votes hne _ _ _
  have hsome : (votes.map (·.1.signature)).isEmpty = false := by
    rw [isEmpty_eq_false_iff]
    simpa using hne
  show (if (votes.map (·.1.signature)).isEmpty then none else some _).isSome
  rw [hsome]
  rfl

/-- With the vote of the fourth, for another block, in the end, there is a certificate. -/
theorem late_vote_harmless : ∃ qc ∈ ((threeVotes ++ [fourInput 0xa4 [4] 8]).foldl (collect plainBls)
      ⟨.start (fourConfig.build plainBls), []⟩).formed, qc.voteData = ⟨7, 1, 0, 1⟩ := by
  have hmem : ∀ i ∈ threeVotes ++ [fourInput 0xa4 [4] 8], i = fourInput 0xa1 [1] 7 ∨
      i = fourInput 0xa2 [2] 7 ∨ i = fourInput 0xa3 [3] 7 ∨ i = fourInput 0xa4 [4] 8 := by
    intro i hi
    simpa [threeVotes] using hi
  refine (certificate_forms_iff plainBls fourConfig (threeVotes ++ [fourInput 0xa4 [4] 8])
    ⟨7, 1, 0, 1⟩ {0xa1, 0xa2, 0xa3} (plainBls_aggregates _) ?_ (by decide) ?_ ?_).mpr ?_
  · intro i hi
    rcases hmem i hi with rfl | rfl | rfl | rfl <;> exact trivial
  · intro v hv
    have hv' : v = 0xa1 ∨ v = 0xa2 ∨ v = 0xa3 := by simpa using hv
    rcases hv' with rfl | rfl | rfl
    · exact ⟨fourVote 0xa1 [1] 7, [1], by simp [threeVotes, fourInput], rfl, rfl, by decide +kernel⟩
    · exact ⟨fourVote 0xa2 [2] 7, [2], by simp [threeVotes, fourInput], rfl, rfl, by decide +kernel⟩
    · exact ⟨fourVote 0xa3 [3] 7, [3], by simp [threeVotes, fourInput], rfl, rfl, by decide +kernel⟩
  · intro vote pubkey hi hvoter _ _
    rcases hmem _ hi with heq | heq | heq | heq <;> cases heq
    · rfl
    · rfl
    · rfl
    · exact absurd hvoter (by decide)
  intro vote pubkey hfirst
  have hfind : (threeVotes ++ [fourInput 0xa4 [4] 8]).find?
      (inSlot plainBls (fourConfig.build plainBls) ⟨7, 1, 0, 1⟩) = some (fourInput 0xa1 [1] 7) :=
    find?_cons_of_pos (by decide +kernel)
  rw [hfind] at hfirst
  cases hfirst
  rfl

/-- When it arrives first, there is none, though the votes of the three are valid and make a
quorum. -/
theorem first_vote_jams :
    threeVotes.all (inSlot plainBls (fourConfig.build plainBls) ⟨7, 1, 0, 1⟩) = true ∧
    (fourConfig.build plainBls).validatorSet.quorum = threeVotes.length ∧
    ((fourInput 0xa4 [4] 8 :: threeVotes).foldl (collect plainBls)
      ⟨.start (fourConfig.build plainBls), []⟩).formed = [] := by
  refine ⟨by decide +kernel, by decide +kernel, by decide +kernel⟩

end ZbxChain.HotStuff
