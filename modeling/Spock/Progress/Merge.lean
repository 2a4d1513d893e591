import Mathlib.Data.List.Perm.Basic
import Spock.Lib.Records
import Spock.Progress.Entry

/-!
# Spock — which commit the progress of a group ends with

The workers of an apply group update one entry, each after the commit of its own transaction, in
whatever order they get to it. The entry has the LSN up to which the provider's transactions are
applied; the merge, however, goes by the commit timestamp. For a provider's own transactions the two
orders are the same. A forwarded transaction keeps the timestamp of the node that it comes from.

* **`progressAfter_perm`** — calls with different timestamps may come in any order;
* **`commitLsn_greatest_iff`** — when this is the greatest LSN, for every order of the calls.
-/

namespace Spock.Progress

open List

structure RemoteTxn where
  endLsn : Nat
  commitTime : Int
  deriving DecidableEq

/-- A call of `spock_group_progress_update_ptr` in `handle_commit`, with the insert LSN that the
worker has read from the entry and the time of its clock. -/
structure UpdateCall where
  txn : RemoteTxn
  insertLsn : Nat
  now : Int
  deriving DecidableEq

/-- `spock_group_progress_update_ptr`. -/
def progressUpdatePtr (p : ApplyProgress) (call : UpdateCall) : ApplyProgress :=
  progressUpdateStruct p
    (commitProgress p.key call.txn.commitTime call.txn.endLsn call.insertLsn call.now)

def progressAfter (p : ApplyProgress) (calls : List UpdateCall) : ApplyProgress :=
  calls.foldl progressUpdatePtr p

/-- **The commit that the entry ends with.** -/
theorem progressAfter_cases (p : ApplyProgress) (calls : List UpdateCall) :
    ((progressAfter p calls).remoteCommitLsn = p.remoteCommitLsn ∧
        ∀ c ∈ calls, c.txn.commitTime ≤ p.remoteCommitTs) ∨
      ∃ pre c post, calls = pre ++ c :: post ∧
        (progressAfter p calls).remoteCommitLsn = c.txn.endLsn ∧
        p.remoteCommitTs < c.txn.commitTime ∧
        (∀ x ∈ pre, x.txn.commitTime < c.txn.commitTime) ∧
        ∀ x ∈ post, x.txn.commitTime ≤ c.txn.commitTime :=
  Records.foldl_offer_cases (fun c : UpdateCall => c.txn.commitTime) ApplyProgress.remoteCommitTs
    ApplyProgress.remoteCommitLsn (fun c => c.txn.endLsn) progressUpdatePtr
    (fun _ _ => progressUpdateStruct_ts _ _) (fun _ _ => progressUpdateStruct_commitLsn _ _) p calls

theorem progressUpdatePtr_comm {c d : UpdateCall} (h : c.txn.commitTime ≠ d.txn.commitTime)
    (p : ApplyProgress) :
    progressUpdatePtr (progressUpdatePtr p c) d = progressUpdatePtr (progressUpdatePtr p d) c := by
  -- the later of the two timestamps is adopted, whichever comes first
  simp only [progressUpdatePtr, progressUpdateStruct, adoptCommit, commitProgress]
  rw [ApplyProgress.ext_iff]
  grind

/-- **The order of the workers does not matter,** if no two transactions have the same timestamp:
the entry is the same in every field. -/
theorem progressAfter_perm {calls calls' : List UpdateCall} (hperm : calls.Perm calls')
    (hdistinct : ∀ c ∈ calls, ∀ d ∈ calls, c.txn.commitTime = d.txn.commitTime → c = d)
    (p : ApplyProgress) : progressAfter p calls = progressAfter p calls' := by
  refine hperm.foldl_eq' (fun c hc d hd q => ?_) p
  by_cases heq : c.txn.commitTime = d.txn.commitTime
  · rw [hdistinct c hc d hd heq]
  · exact progressUpdatePtr_comm heq q

theorem progressAfter_perm_two :
    progressAfter (initProgressFields someKey) [⟨⟨100, 7⟩, 200, 9⟩, ⟨⟨200, 6⟩, 300, 9⟩] =
      progressAfter (initProgressFields someKey) [⟨⟨200, 6⟩, 300, 9⟩, ⟨⟨100, 7⟩, 200, 9⟩] :=
  progressAfter_perm (Perm.swap _ _ _) (by decide) _

section Greatest

variable {p : ApplyProgress} {earlier : List RemoteTxn} {top : RemoteTxn}

theorem commitLsn_of_newest {calls : List UpdateCall}
    (hcalls : (calls.map (·.txn)).Perm (earlier ++ [top])) (hp : p.remoteCommitTs < top.commitTime)
    (hearlier : ∀ t ∈ earlier, t.commitTime < top.commitTime) :
    (progressAfter p calls).remoteCommitLsn = top.endLsn := by
  obtain ⟨c, hc, htop⟩ : ∃ c ∈ calls, c.txn = top :=
    mem_map.mp (hcalls.symm.subset (by simp))
  rcases progressAfter_cases p calls with ⟨-, hle⟩ | ⟨pre, d, post, rfl, hlsn, -, hpre, hpost⟩
  · have := hle c hc
    rw [htop] at this
    omega
  · -- the transaction the entry ends with is not one of the earlier ones
    have hd : d.txn ∈ earlier ++ [top] := hcalls.subset (mem_map_of_mem (by simp))
    have hge : top.commitTime ≤ d.txn.commitTime := by
      rw [← htop]
      rcases mem_append.mp hc with hc | hc
      · exact le_of_lt (hpre c hc)
      · rcases mem_cons.mp hc with rfl | hc
        · exact le_rfl
        · exact hpost c hc
    rcases mem_append.mp hd with hd | hd
    · have := hearlier _ hd
      omega
    · rw [hlsn, mem_singleton.mp hd]

def inOrder (txns : List RemoteTxn) : List UpdateCall := txns.map (fun t => ⟨t, 0, 0⟩)

@[simp] theorem inOrder_txns (txns : List RemoteTxn) : (inOrder txns).map (·.txn) = txns := by
  simp [inOrder, map_map, Function.comp_def]

/-- Already in the order of delivery the entry ends with the newest transaction only in the two
cases of the theorem below. -/
theorem newest_of_commitLsn (hincr : (earlier ++ [top]).Pairwise fun t u => t.endLsn < u.endLsn)
    (hlsn : (progressAfter p (inOrder (earlier ++ [top]))).remoteCommitLsn = top.endLsn) :
    (p.remoteCommitTs < top.commitTime ∧ ∀ t ∈ earlier, t.commitTime < top.commitTime) ∨
      (p.remoteCommitLsn = top.endLsn ∧
        ∀ t ∈ earlier ++ [top], t.commitTime ≤ p.remoteCommitTs) := by
  rcases progressAfter_cases p (inOrder (earlier ++ [top])) with
    ⟨hsame, hle⟩ | ⟨pre, c, post, hsplit, hend, hp, hpre, hpost⟩
  · refine .inr ⟨hsame.symm.trans hlsn, fun t ht => ?_⟩
    exact hle ⟨t, 0, 0⟩ (mem_map_of_mem ht)
  · refine .inl ?_
    -- the LSN of `c` is the greatest, so nothing comes after it
    have htxns : earlier ++ [top] = pre.map (·.txn) ++ c.txn :: post.map (·.txn) := by
      rw [← inOrder_txns (earlier ++ [top]), hsplit]
      simp
    have hlast : c.txn.endLsn = top.endLsn := hend.symm.trans hlsn
    have hpost : post = [] := by
      by_contra hne
      have hmax : ∀ t ∈ earlier ++ [top], t.endLsn ≤ top.endLsn := by
        intro t ht
        rcases mem_append.mp ht with ht | ht
        · exact le_of_lt ((pairwise_append.mp hincr).2.2 t ht top (by simp))
        · rw [mem_singleton.mp ht]
      obtain ⟨x, hx⟩ := exists_mem_of_ne_nil post hne
      rw [htxns] at hincr hmax
      have hafter : c.txn.endLsn < x.txn.endLsn :=
        (pairwise_cons.mp (pairwise_append.mp hincr).2.1).1 _ (mem_map_of_mem hx)
      have := hmax x.txn (mem_append_right _ (mem_cons_of_mem _ (mem_map_of_mem hx)))
      omega
    subst hpost
    obtain ⟨hpres, htop⟩ := append_inj' htxns rfl
    cases List.cons.inj htop |>.1
    refine ⟨hp, fun t ht => ?_⟩
    rw [hpres] at ht
    obtain ⟨x, hx, rfl⟩ := mem_map.mp ht
    exact hpre x hx

/-- **When the progress is the greatest LSN.** For transactions in the order of their end LSNs,
`top` the last of them, and every order in which the workers call for them: the entry has the LSN of
`top` exactly if `top` has the greatest timestamp, above the one that the entry had, or if the entry
had the LSN before and no timestamp is above its own. -/
theorem commitLsn_greatest_iff
    (hincr : (earlier ++ [top]).Pairwise fun t u => t.endLsn < u.endLsn) :
    (∀ calls : List UpdateCall, (calls.map (·.txn)).Perm (earlier ++ [top]) →
        (progressAfter p calls).remoteCommitLsn = top.endLsn) ↔
      (p.remoteCommitTs < top.commitTime ∧ ∀ t ∈ earlier, t.commitTime < top.commitTime) ∨
        (p.remoteCommitLsn = top.endLsn ∧
          ∀ t ∈ earlier ++ [top], t.commitTime ≤ p.remoteCommitTs) := by
  constructor
  · exact fun h => newest_of_commitLsn hincr (h _ (by rw [inOrder_txns]))
  · rintro (⟨hp, hearlier⟩ | ⟨hlsn, hle⟩) calls hcalls
    · exact commitLsn_of_newest hcalls hp hearlier
    -- no call has a timestamp that is taken over
    · rcases progressAfter_cases p calls with ⟨hsame, -⟩ | ⟨pre, c, post, rfl, -, hlt, -⟩
      · exact hsame.trans hlsn
      · have := hle c.txn (hcalls.subset (mem_map_of_mem (by simp)))
        omega

end Greatest

/-- Two transactions of the provider itself. -/
theorem commitLsn_greatest_iff_two :
    [RemoteTxn.mk 100 7, ⟨200, 8⟩].Pairwise (fun t u => t.endLsn < u.endLsn) ∧
    ∀ calls : List UpdateCall, (calls.map (·.txn)).Perm [⟨100, 7⟩, ⟨200, 8⟩] →
      (progressAfter (initProgressFields someKey) calls).remoteCommitLsn = 200 := by
  have hincr : ([RemoteTxn.mk 100 7] ++ [RemoteTxn.mk 200 8]).Pairwise
      (fun t u => t.endLsn < u.endLsn) := by
    decide
  have hcond : (initProgressFields someKey).remoteCommitTs < 8 ∧
      ∀ t ∈ [RemoteTxn.mk 100 7], t.commitTime < 8 := by decide
  exact ⟨hincr, (commitLsn_greatest_iff hincr).mpr (.inl hcond)⟩

/-- The second transaction is a forwarded one with an older timestamp: the entry stays at the first,
in either order of the calls. -/
theorem commitLsn_not_greatest :
    (progressAfter (initProgressFields someKey) [⟨⟨100, 7⟩, 200, 9⟩, ⟨⟨200, 6⟩, 200, 9⟩]).remoteCommitLsn
        = 100 ∧
      (progressAfter (initProgressFields someKey)
        [⟨⟨200, 6⟩, 200, 9⟩, ⟨⟨100, 7⟩, 200, 9⟩]).remoteCommitLsn = 100 := by
  decide

end Spock.Progress
