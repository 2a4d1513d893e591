import Mathlib.Data.List.Iterate
import Mathlib.Data.List.Nodup
import Mathlib.Data.List.Perm.Basic
import Spock.Progress.Entry

/-!
# Spock — the commit timestamp that a worker recovers after a crash

When the entry of a worker does not agree with its replication origin, its timestamps are cleared,
and `recover_progress_timestamps_from_commit_ts` looks for them in `pg_commit_ts`: it goes back from
the latest transaction id in batches of a thousand, until it has seen enough commits of the provider
or enough ids. Ids are 32-bit numbers on a circle, of which 0, 1 and 2 are left out.

* **`recover_complete_iff`** — for which ids that is what it does: not beyond 2³¹ + 3, where it
  gives up at once, and not across the wraparound, where it stops.
-/

namespace Spock.Progress

open List Option

/-! ## The scan -/

/-- `TransactionIdPrecedes`: the difference is negative as a signed number. -/
def transactionIdPrecedes (id1 id2 : UInt32) : Bool := 0x80000000 ≤ (id1 - id2).toNat

def firstNormalXid : UInt32 := 3

def tsRecoveryMinSeenPerOrigin : Nat := 1000

def tsRecoveryScanLimit : Int := 1000000

def tsRecoveryBatchSize : UInt32 := 1000

/-- An entry of `pg_commit_ts`. -/
structure CommitTs where
  ts : Int
  origin : Nat
  deriving DecidableEq

/-- `TransactionIdGetCommitTsData`; `none` for an id without data. -/
abbrev CommitTsTable := UInt32 → Option CommitTs

structure Scan where
  visited : List UInt32
  runningMaxTs : Int
  seenCount : Nat
  totalScanned : Int
  deriving DecidableEq

def Scan.start : Scan where
  visited := []
  runningMaxTs := 0
  seenCount := 0
  totalScanned := 0

def visit (table : CommitTsTable) (target : Nat) (s : Scan) (xid : UInt32) : Scan :=
  match table xid with
  | none => { s with visited := s.visited ++ [xid] }
  | some c =>
    if c.origin ≠ target then { s with visited := s.visited ++ [xid] }
    else
      { s with
        visited := s.visited ++ [xid]
        seenCount := s.seenCount + 1
        runningMaxTs := if s.runningMaxTs < c.ts then c.ts else s.runningMaxTs }

/-- The inner loop; `none` if it takes more than `fuel` rounds. -/
def scanBatch (table : CommitTsTable) (target : Nat) (xidHigh : UInt32) :
    Nat → UInt32 → Scan → Option Scan
  | 0, _, _ => none
  | fuel + 1, xid, s =>
    if transactionIdPrecedes xid (xidHigh + 1) then
      scanBatch table target xidHigh fuel (xid + 1) (visit table target s xid)
    else some s

def batchLow (xidHigh : UInt32) : UInt32 :=
  if transactionIdPrecedes xidHigh (firstNormalXid + tsRecoveryBatchSize) then firstNormalXid
  else xidHigh - tsRecoveryBatchSize + 1

/-- The outer loop; `none` if it takes more than `fuel` rounds, or the inner one more than
`inner`. -/
def scanBatches (table : CommitTsTable) (target inner : Nat) : Nat → UInt32 → Scan → Option Scan
  | 0, _, _ => none
  | fuel + 1, xidHigh, s =>
    if s.seenCount < tsRecoveryMinSeenPerOrigin ∧ s.totalScanned < tsRecoveryScanLimit then
      (scanBatch table target xidHigh inner (batchLow xidHigh) s).bind fun s =>
        let s := { s with
          totalScanned := s.totalScanned + ((xidHigh.toNat : Int) - (batchLow xidHigh).toNat + 1) }
        if batchLow xidHigh = firstNormalXid then some s
        else scanBatches table target inner fuel (batchLow xidHigh - 1) s
    else some s

/-- `recover_progress_timestamps_from_commit_ts`, where `ReadNextTransactionId` returns `next`. -/
def recover (fuel : Nat) (next : UInt32) (table : CommitTsTable) (target : Nat) (p : ApplyProgress) :
    Option (Scan × ApplyProgress) :=
  if transactionIdPrecedes next (firstNormalXid + 1) then some (.start, p)
  else
    (scanBatches table target fuel fuel (next - 1) .start).map fun s =>
      (s, storeRecovered s.runningMaxTs p)

/-! ## What it is for -/

/-- The id before `xid`, past the three that are not used. -/
def prevXid (xid : UInt32) : UInt32 := if xid ≤ firstNormalXid then 0xFFFFFFFF else xid - 1

/-- The `n` ids before `next`, the latest first. -/
def backwards (next : UInt32) (n : Nat) : List UInt32 := List.iterate prevXid (prevXid next) n

/-- The ids in use when `oldest` is the oldest and `next` the next one, on the circle. -/
def Live (oldest next xid : UInt32) : Prop :=
  firstNormalXid ≤ xid ∧ (xid - oldest).toNat < (next - oldest).toNat
  deriving Decidable

def commits (table : CommitTsTable) (target : Nat) (xids : List UInt32) : List CommitTs :=
  xids.filterMap fun xid => (table xid).filter fun c => c.origin = target

def maxTs (cs : List CommitTs) : Int := (cs.map (·.ts)).foldl max 0

/-- The scan goes back from `next` and leaves out nothing, it stops after a thousand commits of the
origin, after a million ids or when all live ones have been visited, and the entry gets the greatest
timestamp. -/
structure Complete (oldest next : UInt32) (table : CommitTsTable) (target : Nat)
    (r : Scan × ApplyProgress) : Prop where
  backwards : ∃ n, r.1.visited.Perm (backwards next n)
  once : r.1.visited.Nodup
  stopped : 1000 ≤ (commits table target r.1.visited).length ∨ 1000000 ≤ r.1.visited.length ∨
    ∀ xid, Live oldest next xid → xid ∈ r.1.visited
  recovered : r.2.remoteCommitTs = maxTs (commits table target r.1.visited)

/-! ## Ids that do not wrap -/

/-- The ids from `a` up to `b`. -/
def xids (a b : Nat) : List UInt32 := (List.range' a (b - a)).map UInt32.ofNat

variable {a b : Nat}

theorem mem_xids (hb : b ≤ 4294967296) {x : UInt32} : x ∈ xids a b ↔ a ≤ x.toNat ∧ x.toNat < b := by
  simp only [xids, List.mem_map, mem_range'_1]
  constructor
  · rintro ⟨i, hi, rfl⟩
    rw [UInt32.toNat_ofNat_of_lt' (by simp only [UInt32.size]; omega)]
    omega
  · exact fun h => ⟨x.toNat, by omega, UInt32.ofNat_toNat⟩

theorem length_xids (a b : Nat) : (xids a b).length = b - a := by
  rw [xids, length_map, length_range']

theorem nodup_xids (hb : b ≤ 4294967296) : (xids a b).Nodup := by
  refine List.Nodup.map_on ?_ nodup_range'
  intro i hi j hj heq
  rw [mem_range'_1] at hi hj
  have := congrArg UInt32.toNat heq
  rw [UInt32.toNat_ofNat_of_lt' (by simp only [UInt32.size]; omega),
    UInt32.toNat_ofNat_of_lt' (by simp only [UInt32.size]; omega)] at this
  exact this

theorem xids_append {c : Nat} (hab : a ≤ b) (hbc : b ≤ c) : xids a c = xids a b ++ xids b c := by
  simp only [xids, ← map_append]
  have hsplit := List.range'_append_1 (s := a) (m := b - a) (n := c - b)
  rw [show a + (b - a) = b by omega, show b - a + (c - b) = c - a by omega] at hsplit
  rw [hsplit]

theorem xids_cons (h : a < b) : xids a b = UInt32.ofNat a :: xids (a + 1) b := by
  simp only [xids]
  rw [show b - a = (b - (a + 1)) + 1 by omega, List.range'_succ, map_cons]

theorem xids_self (a : Nat) : xids a a = [] := by
  simp [xids]

theorem precedes_iff (id1 id2 : UInt32) (h : id1.toNat ≤ id2.toNat + 0x80000000 - 1)
    (h' : id2.toNat ≤ id1.toNat + 0x80000000) :
    transactionIdPrecedes id1 id2 = true ↔ id1.toNat < id2.toNat := by
  have h1 := id1.toNat_lt
  have h2 := id2.toNat_lt
  simp only [transactionIdPrecedes, decide_eq_true_eq, UInt32.toNat_sub]
  omega

theorem toNat_succ {xid : UInt32} (h : xid.toNat < 4294967295) : (xid + 1).toNat = xid.toNat + 1 := by
  rw [UInt32.toNat_add]
  simp only [UInt32.toNat_one]
  omega

/-! ## The loops -/

section Loops

variable {table : CommitTsTable} {target : Nat}

variable {xidHigh next : UInt32} {s : Scan} {inner : Nat}

/-- **The inner loop.** It visits the ids of the batch, in ascending order. -/
theorem scanBatch_eq {xid : UInt32} {fuel : Nat} (hhigh : xidHigh.toNat < 4294967295)
    (hle : xid.toNat ≤ xidHigh.toNat + 1) (hnear : xidHigh.toNat < xid.toNat + 0x80000000)
    (hfuel : xidHigh.toNat + 1 - xid.toNat < fuel) :
    scanBatch table target xidHigh fuel xid s
      = some ((xids xid.toNat (xidHigh.toNat + 1)).foldl (visit table target) s) := by
  induction fuel generalizing xid s with
  | zero => omega
  | succ _ ih =>
    have hsucc := toNat_succ hhigh
    have hprecedes := precedes_iff xid (xidHigh + 1) (by omega) (by omega)
    by_cases hlt : xid.toNat < xidHigh.toNat + 1
    · have hnext : (xid + 1).toNat = xid.toNat + 1 := toNat_succ (by omega)
      rw [scanBatch, if_pos (hprecedes.mpr (by omega)),
        ih (by omega) (by omega) (by omega), hnext, xids_cons hlt, foldl_cons,
        UInt32.ofNat_toNat]
    · rw [scanBatch, if_neg (fun h => hlt (by have := hprecedes.mp h; omega)),
        show xid.toNat = xidHigh.toNat + 1 by omega, xids_self, foldl_nil]

structure Tally (table : CommitTsTable) (target : Nat) (s : Scan) : Prop where
  seen : s.seenCount = (commits table target s.visited).length
  max : s.runningMaxTs = maxTs (commits table target s.visited)

theorem commits_append (l l' : List UInt32) :
    commits table target (l ++ l') = commits table target l ++ commits table target l' :=
  filterMap_append

theorem maxTs_append_singleton (cs : List CommitTs) (c : CommitTs) :
    maxTs (cs ++ [c]) = max (maxTs cs) c.ts := by
  simp [maxTs]

theorem tally_visit (h : Tally table target s) (xid : UInt32) :
    Tally table target (visit table target s xid) ∧
      (visit table target s xid).visited = s.visited ++ [xid] ∧
      (visit table target s xid).totalScanned = s.totalScanned := by
  have hone : commits table target [xid] = ((table xid).filter fun c => c.origin = target).toList := by
    cases hc : (table xid).filter fun c => c.origin = target <;> simp [commits, hc]
  unfold visit
  split
  · next hnone =>
    rw [hnone] at hone
    refine ⟨⟨?_, ?_⟩, rfl, rfl⟩
    · simpa [commits_append, hone] using h.seen
    · simpa [commits_append, hone] using h.max
  · next hsome =>
    split
    · next hother =>
      rw [hsome, filter_some, if_neg (by simpa using hother)] at hone
      refine ⟨⟨?_, ?_⟩, rfl, rfl⟩
      · simpa [commits_append, hone] using h.seen
      · simpa [commits_append, hone] using h.max
    · next horigin =>
      rw [hsome, filter_some, if_pos (by simpa using horigin)] at hone
      refine ⟨⟨?_, ?_⟩, rfl, rfl⟩
      · simp [commits_append, hone, h.seen]
      · rw [commits_append, hone, toList_some, maxTs_append_singleton, ← h.max]
        dsimp only
        split <;> omega

theorem tally_foldl (h : Tally table target s) (l : List UInt32) :
    Tally table target (l.foldl (visit table target) s) ∧
      (l.foldl (visit table target) s).visited = s.visited ++ l ∧
      (l.foldl (visit table target) s).totalScanned = s.totalScanned := by
  induction l generalizing s with
  | nil => exact ⟨h, (append_nil _).symm, rfl⟩
  | cons xid _ ih =>
    obtain ⟨htally, hvisited, htotal⟩ := tally_visit h xid
    obtain ⟨htally', hvisited', htotal'⟩ := ih htally
    refine ⟨htally', ?_, htotal'.trans htotal⟩
    rw [foldl_cons, hvisited', hvisited, append_assoc, singleton_append]

theorem batchLow_toNat (hlow : 3 ≤ xidHigh.toNat) (hhigh : xidHigh.toNat ≤ 0x80000002) :
    (batchLow xidHigh).toNat = if xidHigh.toNat < 1003 then 3 else xidHigh.toNat - 999 := by
  have hbound : (firstNormalXid + tsRecoveryBatchSize).toNat = 1003 := by decide
  have hprecedes := precedes_iff xidHigh (firstNormalXid + tsRecoveryBatchSize)
    (by rw [hbound]; omega) (by rw [hbound]; omega)
  rw [hbound] at hprecedes
  unfold batchLow
  by_cases h : xidHigh.toNat < 1003
  · rw [if_pos (hprecedes.mpr h), if_pos h]
    rfl
  · rw [if_neg (fun hp => h (hprecedes.mp hp)), if_neg h, UInt32.toNat_add, UInt32.toNat_sub]
    have hsize : tsRecoveryBatchSize.toNat = 1000 := by decide
    rw [hsize, UInt32.toNat_one]
    omega

/-- The head of the outer loop: the ids above `xidHigh` have been visited. -/
structure Scanned (table : CommitTsTable) (target : Nat) (next xidHigh : UInt32) (s : Scan) : Prop where
  tally : Tally table target s
  visited : s.visited.Perm (xids (xidHigh.toNat + 1) next.toNat)
  total : s.totalScanned = next.toNat - 1 - xidHigh.toNat

/-- **One batch.** -/
theorem scanned_batch (hlow : 3 ≤ xidHigh.toNat) (hhigh : xidHigh.toNat ≤ 0x80000002)
    (hnext : xidHigh.toNat < next.toNat) (h : Scanned table target next xidHigh s)
    (hinner : 1001 ≤ inner) :
    ∃ s', scanBatch table target xidHigh inner (batchLow xidHigh) s = some s' ∧
      Tally table target s' ∧ s'.visited.Perm (xids (batchLow xidHigh).toNat next.toNat) ∧
      s'.totalScanned = s.totalScanned := by
  have hbatch := batchLow_toNat hlow hhigh
  have hbatch' : 3 ≤ (batchLow xidHigh).toNat ∧ (batchLow xidHigh).toNat ≤ xidHigh.toNat ∧
      xidHigh.toNat + 1 - (batchLow xidHigh).toNat ≤ 1000 := by
    split at hbatch <;> omega
  obtain ⟨-, _⟩ := hbatch'
  refine ⟨_, scanBatch_eq (by omega) (by omega) (by omega) (by omega), ?_⟩
  obtain ⟨htally, hvisited, htotal⟩ := tally_foldl h.tally
    (xids (batchLow xidHigh).toNat (xidHigh.toNat + 1))
  refine ⟨htally, ?_, htotal⟩
  have hsplit : xids (batchLow xidHigh).toNat next.toNat = _ :=
    xids_append (b := xidHigh.toNat + 1) (by omega) (by omega)
  -- the batch is visited upwards, after the ids above it
  rw [hvisited, hsplit]
  exact (h.visited.append_right _).trans perm_append_comm

/-- **The outer loop.** It ends with the ids from some `low` on visited, after enough commits, after
enough ids, or at the first normal id. Every batch but the last has a thousand ids, which bounds the
number of rounds. -/
theorem scanBatches_spec {fuel : Nat} (hlow : 3 ≤ xidHigh.toNat)
    (hhigh : xidHigh.toNat ≤ 0x80000002) (hnext : xidHigh.toNat < next.toNat)
    (h : Scanned table target next xidHigh s) (hinner : 1001 ≤ inner)
    (hfuel : 0 < fuel ∧ 1000000 ≤ s.totalScanned + 1000 * (fuel - 1 : Nat)) :
    ∃ s' low, scanBatches table target inner fuel xidHigh s = some s' ∧ Tally table target s' ∧
      3 ≤ low ∧ low ≤ next.toNat ∧ s'.visited.Perm (xids low next.toNat) ∧
      (1000 ≤ s'.seenCount ∨ 1000000 ≤ next.toNat - low ∨ low = 3) := by
  have htotal := h.total
  induction fuel generalizing xidHigh s with
  | zero => exact absurd hfuel.1 (Nat.lt_irrefl 0)
  | succ _ ih =>
    rw [scanBatches]
    by_cases hgo : s.seenCount < tsRecoveryMinSeenPerOrigin ∧ s.totalScanned < tsRecoveryScanLimit
    · rw [if_pos hgo]
      have hmore : s.totalScanned < 1000000 := hgo.2
      obtain ⟨_, hs₁, htally, hvisited, _⟩ := scanned_batch hlow hhigh hnext h hinner
      rw [hs₁, bind_some]
      dsimp only
      have hbatch := batchLow_toNat hlow hhigh
      by_cases hfloor : batchLow xidHigh = firstNormalXid
      · rw [if_pos hfloor]
        have hthree : (batchLow xidHigh).toNat = 3 := by rw [hfloor]; rfl
        refine ⟨_, 3, rfl, { htally with }, le_rfl, by omega, ?_, .inr (.inr rfl)⟩
        rwa [hthree] at hvisited
      · rw [if_neg hfloor]
        -- not at the floor, the batch has a thousand ids and the next one starts below it
        have hthree : (batchLow xidHigh).toNat ≠ 3 := fun heq =>
          hfloor (UInt32.toNat_inj.mp (by rw [heq]; rfl))
        have hfull : ¬ xidHigh.toNat < 1003 := fun hlt => hthree (by rw [hbatch, if_pos hlt])
        rw [if_neg hfull] at hbatch
        have hprev : (batchLow xidHigh - 1).toNat = xidHigh.toNat - 1000 := by
          rw [UInt32.toNat_sub, UInt32.toNat_one, hbatch]
          omega
        refine ih (by omega) (by omega) (by omega) ⟨{ htally with }, ?_, ?_⟩ ?_ ?_
        · rwa [hprev, show xidHigh.toNat - 1000 + 1 = (batchLow xidHigh).toNat by omega]
        all_goals
          dsimp only
          omega
    · rw [if_neg hgo]
      refine ⟨s, xidHigh.toNat + 1, rfl, h.tally, by omega, by omega, h.visited, ?_⟩
      -- one of the two limits has ended the loop
      by_cases hseen : s.seenCount < 1000
      · have hmillion : ¬ s.totalScanned < 1000000 := fun hlt => hgo ⟨hseen, hlt⟩
        omega
      · omega

end Loops

/-! ## The whole circle -/

theorem backwards_eq {next : UInt32} {n : Nat} (hlow : 3 + n ≤ next.toNat) :
    backwards next n = (xids (next.toNat - n) next.toNat).reverse := by
  induction n generalizing next with
  | zero => rw [Nat.sub_zero, xids_self]; rfl
  | succ n ih =>
    have hnormal : ¬ next ≤ firstNormalXid := by
      rw [UInt32.le_iff_toNat_le, show firstNormalXid.toNat = 3 from rfl]
      omega
    have hprev : (prevXid next).toNat = next.toNat - 1 := by
      rw [prevXid, if_neg hnormal, UInt32.toNat_sub, UInt32.toNat_one]
      have := next.toNat_lt
      omega
    have hlast : xids (next.toNat - 1) next.toNat = [prevXid next] := by
      rw [xids_cons (by omega), ← hprev, UInt32.ofNat_toNat, hprev,
        show next.toNat - 1 + 1 = next.toNat by omega, xids_self]
    have hstep : backwards next (n + 1) = prevXid next :: backwards (prevXid next) n := rfl
    rw [hstep, ih (by omega), hprev, show next.toNat - (n + 1) = next.toNat - 1 - n by omega,
      xids_append (a := next.toNat - 1 - n) (b := next.toNat - 1) (c := next.toNat) (by omega) (by omega),
      hlast, reverse_append, reverse_singleton, singleton_append]

/-- Where the scan does what it is for: nothing is live, or the next id is one from which it starts
at all and it does not get to the first normal id too early: no live id lies before the wraparound,
or there are a million ids after it, or a thousand commits of the origin. -/
def Unwrapped (oldest next : UInt32) (table : CommitTsTable) (target : Nat) : Prop :=
  (∀ xid, ¬ Live oldest next xid) ∨
    (4 ≤ next.toNat ∧ next.toNat ≤ 0x80000003 ∧
      ((∀ xid, Live oldest next xid → xid.toNat < next.toNat) ∨ 1000003 ≤ next.toNat ∨
        1000 ≤ (commits table target (xids 3 next.toNat)).length))

theorem skips_iff (next : UInt32) :
    transactionIdPrecedes next (firstNormalXid + 1) = true ↔
      ¬ (4 ≤ next.toNat ∧ next.toNat ≤ 0x80000003) := by
  have hfour : (firstNormalXid + 1).toNat = 4 := rfl
  have hlt := next.toNat_lt
  simp only [transactionIdPrecedes, decide_eq_true_eq, UInt32.toNat_sub, hfour]
  omega

section Complete

variable {next : UInt32} {table : CommitTsTable} {target : Nat} {p : ApplyProgress}

theorem le_foldl_max (l : List Int) (a : Int) : a ≤ l.foldl max a := by
  induction l generalizing a with
  | nil => exact le_rfl
  | cons b _ ih => exact (le_max_left a b).trans (ih (max a b))

theorem maxTs_nonneg (cs : List CommitTs) : 0 ≤ maxTs cs := le_foldl_max _ 0

theorem storeRecovered_ts {ts : Int} (hts : 0 ≤ ts) (hp : p.remoteCommitTs = 0) :
    (storeRecovered ts p).remoteCommitTs = ts := by
  unfold storeRecovered
  split
  · rfl
  · next hnot => omega

theorem stopped_iff (oldest : UInt32) {s : Scan} {low : Nat}
    (hnext : 4 ≤ next.toNat ∧ next.toNat ≤ 0x80000003)
    (hlow : 3 ≤ low) (hlow' : low ≤ next.toNat) (htally : Tally table target s)
    (hvisited : s.visited.Perm (xids low next.toNat))
    (hstop : 1000 ≤ s.seenCount ∨ 1000000 ≤ next.toNat - low ∨ low = 3) :
    (1000 ≤ (commits table target s.visited).length ∨ 1000000 ≤ s.visited.length ∨
        ∀ xid, Live oldest next xid → xid ∈ s.visited) ↔
      Unwrapped oldest next table target := by
  have hlength : s.visited.length = next.toNat - low := hvisited.length_eq.trans (length_xids low _)
  have hmem : ∀ xid, xid ∈ s.visited ↔ low ≤ xid.toNat ∧ xid.toNat < next.toNat := fun xid =>
    hvisited.mem_iff.trans (mem_xids (by omega))
  have hcommits : (commits table target s.visited).length
      = (commits table target (xids low next.toNat)).length := (hvisited.filterMap _).length_eq
  constructor
  · rintro (hseen | hmany | hall)
    · refine .inr ⟨hnext.1, hnext.2, .inr (.inr ?_)⟩
      -- the ids below those that were visited can only add commits
      rw [xids_append hlow hlow', commits_append, length_append]
      omega
    · exact .inr ⟨hnext.1, hnext.2, .inr (.inl (by omega))⟩
    · exact .inr ⟨hnext.1, hnext.2, .inl fun xid hxid => ((hmem xid).mp (hall xid hxid)).2⟩
  · intro h
    rcases hstop with hseen | hmany | rfl
    · exact .inl (htally.seen ▸ hseen)
    · exact .inr (.inl (by omega))
    · -- everything down to the first normal id has been visited
      rcases h with hnone | ⟨-, -, hbelow | hmany | hseen⟩
      · exact .inr (.inr fun xid hxid => absurd hxid (hnone xid))
      · exact .inr (.inr fun xid hxid => (hmem xid).mpr ⟨UInt32.le_iff_toNat_le.mp hxid.1,
          hbelow xid hxid⟩)
      · exact .inr (.inl (by omega))
      · exact .inl (by omega)

/-- **When the recovery does what it is for.** For every next id, every oldest live id and every
table: the function returns, and the scan is complete exactly if it is `Unwrapped`. The entry is as
`reconcile` leaves it, without a timestamp. -/
theorem recover_complete_iff (oldest next : UInt32) (table : CommitTsTable) (target : Nat)
    {p : ApplyProgress} {fuel : Nat} (hfuel : 2000 ≤ fuel) (hp : p.remoteCommitTs = 0) :
    ∃ r, recover fuel next table target p = some r ∧
      (Complete oldest next table target r ↔ Unwrapped oldest next table target) := by
  unfold recover
  by_cases hskip : transactionIdPrecedes next (firstNormalXid + 1) = true
  · rw [if_pos hskip]
    refine ⟨_, rfl, ?_⟩
    have hrange := (skips_iff next).mp hskip
    constructor
    · intro h
      rcases h.stopped with hseen | hmany | hall
      · exact absurd hseen (by simp [Scan.start, commits])
      · exact absurd hmany (by simp [Scan.start])
      · exact .inl fun xid hxid => not_mem_nil (hall xid hxid)
    · rintro (hnone | ⟨hlow, hhigh, -⟩)
      · exact ⟨⟨0, List.Perm.refl _⟩, nodup_nil,
          .inr (.inr fun xid hxid => absurd hxid (hnone xid)), hp⟩
      · exact absurd ⟨hlow, hhigh⟩ hrange
  · rw [if_neg hskip]
    have hrange : 4 ≤ next.toNat ∧ next.toNat ≤ 0x80000003 :=
      not_not.mp fun h => hskip ((skips_iff next).mpr h)
    have hprev : (next - 1).toNat = next.toNat - 1 := by
      rw [UInt32.toNat_sub, UInt32.toNat_one]
      omega
    -- before the first batch no id has been visited
    have hstart : Scanned table target next (next - 1) .start := by
      refine ⟨⟨rfl, rfl⟩, ?_, ?_⟩
      · rw [hprev, show next.toNat - 1 + 1 = next.toNat by omega, xids_self]
        exact List.Perm.refl _
      · rw [hprev]
        show (0 : Int) = _
        omega
    obtain ⟨s, low, hs, htally, hlow, hlow', hvisited, hstop⟩ :=
      scanBatches_spec (by omega) (by omega) (by omega) hstart (by omega : 1001 ≤ fuel)
        (show 0 < fuel ∧ (1000000 : Int) ≤ 0 + 1000 * (fuel - 1 : Nat) by omega)
    refine ⟨(s, storeRecovered s.runningMaxTs p), by rw [hs, map_some], ?_⟩
    have hstopped := stopped_iff oldest hrange hlow hlow' htally hvisited hstop
    refine ⟨fun h => hstopped.mp h.stopped, fun h => ⟨⟨next.toNat - low, ?_⟩, ?_, hstopped.mpr h, ?_⟩⟩
    · rw [backwards_eq (by omega), show next.toNat - (next.toNat - low) = low by omega]
      exact hvisited.trans (reverse_perm _).symm
    · exact hvisited.nodup_iff.mpr (nodup_xids (by omega))
    · rw [← htally.max]
      exact storeRecovered_ts (htally.max ▸ maxTs_nonneg _) hp

end Complete

def oneCommit : CommitTsTable := fun xid => if xid = 5 then some ⟨70, 2⟩ else none

theorem recover_complete_iff_six :
    ∃ r, recover 2000 6 oneCommit 2 (initProgressFields someKey) = some r ∧
      Complete 3 6 oneCommit 2 r := by
  have hcleared : (initProgressFields someKey).remoteCommitTs = 0 := rfl
  obtain ⟨r, hr, hiff⟩ := recover_complete_iff 3 6 oneCommit 2 (le_refl 2000) hcleared
  refine ⟨r, hr, hiff.mpr (.inr ⟨by decide, by decide, .inl fun xid hxid => ?_⟩)⟩
  have hlive : (xid - 3).toNat < 3 := hxid.2
  have hnormal : 3 ≤ xid.toNat := UInt32.le_iff_toNat_le.mp hxid.1
  have hlt := xid.toNat_lt
  rw [UInt32.toNat_sub, show (3 : UInt32).toNat = 3 from rfl] at hlive
  show xid.toNat < 6
  omega

/-- The commit of the transaction before `next`. -/
def lastCommit (next : UInt32) : CommitTsTable := fun xid => if xid = next - 1 then some ⟨70, 2⟩ else none

/-- **A scan that is not complete.** With the next id half way round the circle nothing is visited
at all; five ids after the wraparound the scan stops at the first of them, and a commit of the
origin just before it is not found. -/
theorem recover_not_complete :
    Live 0x80000000 0x80000004 0x80000003 ∧
    (recover 2000 0x80000004 (lastCommit 0x80000004) 2 (initProgressFields someKey)).map
        (fun r => (r.1.visited, r.2.remoteCommitTs)) = some ([], 0) ∧
    Live 0xFFFFFFF0 5 0xFFFFFFFF ∧
    (recover 2000 5 (lastCommit 0) 2 (initProgressFields someKey)).map
        (fun r => (r.1.visited, r.2.remoteCommitTs)) = some ([3, 4], 0) := by
  decide

end Spock.Progress
