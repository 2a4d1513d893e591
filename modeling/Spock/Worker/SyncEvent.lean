import Spock.Lib.Runs
import Spock.Worker.Position

/-!
# Spock — sync events

`spock.sync_event` writes a marker into the WAL and returns the end of its record.
`spock.wait_for_sync_event` on the subscriber returns true once the position of the replication
origin has reached that LSN. The position says nothing about which transaction moved it: a
transactional marker stands in the WAL where it was written, while its transaction is decoded at its
commit record, and whatever is decoded in between moves the position past the marker.

* **`syncEvent_iff`** — when the waiter can rely on the calling transaction.
-/

namespace Spock.SyncEvent

open Runs List Option

/-! ## The publisher's WAL -/

/-- What a WAL record is to the decoder: the commit record of a transaction, which the output plugin
publishes or filters, the marker of a sync event, or anything else. -/
inductive WalEntry where
  | commit (xid : Nat) (published : Bool)
  | marker (xid : Nat) (transactional : Bool)
  | other
  deriving DecidableEq

structure WalRecord where
  startLsn : Nat
  endLsn : Nat
  entry : WalEntry
  deriving DecidableEq

/-- A history of the publisher, from where the subscription's stream starts. Records of concurrent
transactions and markers stand in it in any order. -/
structure History where
  start : Nat
  records : List WalRecord
  start_le : ∀ r ∈ records, start ≤ r.startLsn
  length_pos : ∀ r ∈ records, r.startLsn < r.endLsn
  ordered : records.Pairwise fun r r' => r.endLsn ≤ r'.startLsn

/-- The record is sent when it is decoded: a transaction is, as a whole, at its commit record, and a
transactional marker with its transaction. -/
def WalEntry.isSent : WalEntry → Bool
  | .commit _ published => published
  | .marker _ transactional => !transactional
  | .other => false

/-! ## The subscriber -/

/-- The subscriber has applied what the first `next` records sent. -/
structure Subscriber where
  next : Nat
  position : Position
  committed : List Nat
  deriving DecidableEq

inductive Event where
  /-- What the next record sends is applied; `o` says how the local side of a transaction ends. -/
  | apply (o : Ending)
  | own
  deriving DecidableEq

def Subscriber.apply (s : Subscriber) (r : WalRecord) (o : Ending) : Subscriber :=
  match r.entry with
  | .commit xid true =>
    { next := s.next + 1
      position := (s.position.begin r.startLsn).settle r.endLsn o
      committed := s.committed ++ [xid] }
  | .marker _ false => { s with next := s.next + 1, position := s.position.advance r.endLsn }
  | _ => { s with next := s.next + 1 }

def Subscriber.step (h : History) (s : Subscriber) : Event → Option Subscriber
  | .apply o => h.records[s.next]?.map fun r => s.apply r o
  | .own => some { s with position := s.position.commit }

/-- The origin is at the start of the stream, and the session's position is not set. -/
def History.subscriber (h : History) : Subscriber := ⟨0, ⟨h.start, 0⟩, []⟩

/-- One turn of the loop of `spock.wait_for_sync_event`: it returns true if the subscription is
found and enabled and the origin's position, if there is one, has reached the LSN. -/
def waitForSyncEvent (subIsEnabled : Option Bool) (progressLsn : Option Nat) (lsn : Nat) : Bool :=
  subIsEnabled == some true && progressLsn.any fun p => lsn ≤ p

theorem le_of_waitForSyncEvent {enabled : Option Bool} {p lsn : Nat}
    (h : waitForSyncEvent enabled (some p) lsn = true) : lsn ≤ p :=
  of_decide_eq_true (Bool.and_eq_true _ _ ▸ h).2

/-! ## Every prefix of the stream -/

variable {h : History} {s s' : Subscriber}

def History.Passed (h : History) (next lsn : Nat) : Prop :=
  lsn ≤ h.start ∨ ∃ (j : ℕ) (r : WalRecord),
    j < next ∧ h.records[j]? = some r ∧ r.entry.isSent = true ∧ lsn ≤ r.endLsn

variable {next : Nat} {r : WalRecord}

theorem History.Passed.mono {next' lsn : Nat} (hp : h.Passed next lsn) (hle : next ≤ next') :
    h.Passed next' lsn :=
  hp.imp_right fun ⟨j, r, hj, hr⟩ => ⟨j, r, by omega, hr⟩

theorem History.Passed.max {a b : Nat} (ha : h.Passed next a) (hb : h.Passed next b) :
    h.Passed next (max a b) := by
  rcases Nat.le_total a b with hle | hle
  · rwa [Nat.max_eq_right hle]
  · rwa [Nat.max_eq_left hle]

/-- **What a prefix of the stream leaves behind.** The positions are ends of records that were sent,
and the transactions committed are those whose commit records were. -/
structure Decoded (h : History) (s : Subscriber) : Prop where
  remoteLsn : h.Passed s.next s.position.remoteLsn
  sessionLsn : h.Passed s.next s.position.sessionLsn
  committed : ∀ xid, xid ∈ s.committed ↔ ∃ (j : ℕ) (r : WalRecord),
    j < s.next ∧ h.records[j]? = some r ∧ r.entry = .commit xid true

theorem decoded_start (h : History) : Decoded h h.subscriber where
  remoteLsn := .inl (le_refl _)
  sessionLsn := .inl (Nat.zero_le _)
  committed _ := ⟨nofun, fun ⟨_, _, hj, _⟩ => absurd hj (Nat.not_lt_zero _)⟩

theorem exists_lt_succ {P : WalRecord → Prop} (hr : h.records[next]? = some r) :
    (∃ (j : ℕ) (r' : WalRecord), j < next + 1 ∧ h.records[j]? = some r' ∧ P r') ↔
      (∃ (j : ℕ) (r' : WalRecord), j < next ∧ h.records[j]? = some r' ∧ P r') ∨ P r := by
  constructor
  · rintro ⟨j, r', hj, hr', hP⟩
    rcases Nat.lt_succ_iff_lt_or_eq.1 hj with hlt | rfl
    · exact .inl ⟨j, r', hlt, hr', hP⟩
    · rw [hr, some_inj] at hr'
      exact .inr (hr' ▸ hP)
  · rintro (⟨j, r', hj, hr'⟩ | hP)
    · exact ⟨j, r', by omega, hr'⟩
    · exact ⟨next, r, by omega, hr, hP⟩

theorem decoded_apply (hs : Decoded h s) (hr : h.records[s.next]? = some r) (o : Ending) :
    Decoded h (s.apply r o) := by
  obtain ⟨lo, hi, entry⟩ := r
  have hmono : ∀ {lsn}, h.Passed s.next lsn → h.Passed (s.next + 1) lsn := fun hp => hp.mono (by omega)
  have hsent : entry.isSent = true → ∀ lsn ≤ hi, h.Passed (s.next + 1) lsn :=
    fun hsent lsn hle => .inr ⟨s.next, _, by omega, hr, hsent, hle⟩
  -- a record other than a published commit commits nothing
  have hother : ∀ p : Position, h.Passed (s.next + 1) p.remoteLsn → h.Passed (s.next + 1) p.sessionLsn →
      (∀ xid, entry ≠ .commit xid true) → Decoded h ⟨s.next + 1, p, s.committed⟩ := by
    intro p hremote hsession hentry
    refine ⟨hremote, hsession, fun xid => ?_⟩
    rw [hs.committed xid, exists_lt_succ hr]
    exact (or_iff_left (hentry xid)).symm
  match entry with
  | .commit xid true =>
    have hlo : h.Passed (s.next + 1) lo :=
      hsent rfl lo (h.length_pos _ (mem_of_getElem? hr)).le
    have hhi : h.Passed (s.next + 1) hi := hsent rfl hi (le_refl hi)
    have hremote := hmono hs.remoteLsn
    refine ⟨?_, ?_, fun x => ?_⟩
    · cases o with
      | empty | wrote => exact hremote.max hhi
      | readOnly => exact hremote
    · cases o with
      | empty => exact hlo
      | readOnly | wrote => exact hhi
    · show x ∈ s.committed ++ [xid] ↔ _
      rw [mem_append, mem_singleton, hs.committed x]
      refine Iff.trans (or_congr_right ?_) (exists_lt_succ hr).symm
      simp only [WalEntry.commit.injEq, and_true, eq_comm]
  | .commit xid false => exact hother _ (hmono hs.remoteLsn) (hmono hs.sessionLsn) (by simp)
  | .marker xid true => exact hother _ (hmono hs.remoteLsn) (hmono hs.sessionLsn) (by simp)
  | .other => exact hother _ (hmono hs.remoteLsn) (hmono hs.sessionLsn) (by simp)
  | .marker xid false =>
    exact hother _ ((hmono hs.remoteLsn).max (hsent rfl hi (le_refl hi))) (hmono hs.sessionLsn)
      (by simp)

theorem decoded_step (hs : Decoded h s) {e : Event} (hstep : s.step h e = some s') : Decoded h s' := by
  cases e with
  | apply o =>
    obtain ⟨r, hr, rfl⟩ := map_eq_some_iff.1 hstep
    exact decoded_apply hs hr o
  | own =>
    cases hstep
    exact { hs with remoteLsn := hs.remoteLsn.max hs.sessionLsn }

theorem decoded_run {events : List Event}
    (hrun : run (Subscriber.step h) h.subscriber events = some s) : Decoded h s :=
  run_invariant (fun _ _ _ hs => decoded_step hs) (decoded_start h) hrun

theorem exists_run (h : History) {k : Nat} (hk : k ≤ h.records.length) :
    ∃ s, run (Subscriber.step h) h.subscriber (List.replicate k (.apply .wrote)) = some s ∧
      s.next = k ∧ ∀ (j : ℕ) (r : WalRecord), j < k → h.records[j]? = some r →
        r.entry.isSent = true → r.endLsn ≤ s.position.remoteLsn := by
  induction k with
  | zero => exact ⟨h.subscriber, rfl, rfl, fun _ _ hj => absurd hj (Nat.not_lt_zero _)⟩
  | succ _ ih =>
    obtain ⟨s, hrun, rfl, hreached⟩ := ih (by omega)
    have hr : h.records[s.next]? = some h.records[s.next] := getElem?_eq_getElem hk
    generalize h.records[s.next] = r at hr
    refine ⟨s.apply r .wrote, ?_, ?_, ?_⟩
    · rw [replicate_succ', run_append, hrun, bind_some, run_cons, Subscriber.step, hr]
      rfl
    · unfold Subscriber.apply
      split <;> rfl
    · -- the position never goes back, and what is sent moves it to its end
      have hmove : s.position.remoteLsn ≤ (s.apply r .wrote).position.remoteLsn ∧
          (r.entry.isSent = true → r.endLsn ≤ (s.apply r .wrote).position.remoteLsn) := by
        obtain ⟨_, _, entry⟩ := r
        match entry with
        | .commit xid true => exact ⟨le_max_left _ _, fun _ => le_max_right _ _⟩
        | .marker xid false => exact ⟨le_max_left _ _, fun _ => le_max_right _ _⟩
        | .commit xid false => exact ⟨le_refl _, nofun⟩
        | .marker xid true => exact ⟨le_refl _, nofun⟩
        | .other => exact ⟨le_refl _, nofun⟩
      intro j r' hj hr' hsent
      rcases Nat.lt_succ_iff_lt_or_eq.1 hj with hlt | rfl
      · exact (hreached j r' hlt hr' hsent).trans hmove.1
      · rw [hr, some_inj] at hr'
        exact hr' ▸ hmove.2 (hr' ▸ hsent)

/-! ## The waiter -/

/-- What the waiter of the marker at place `i` of transaction `xid` may rely on: every published
transaction that committed before the marker is committed, and if the call was transactional and its
transaction committed, that one too. -/
structure Delivered (h : History) (i xid : Nat) (transactional : Bool) (s : Subscriber) : Prop where
  earlier : ∀ (j : ℕ) (r : WalRecord) (x : ℕ), j < i → h.records[j]? = some r →
    r.entry = .commit x true → x ∈ s.committed
  caller : transactional = true →
    (∃ r ∈ h.records, ∃ published, r.entry = .commit xid published) → xid ∈ s.committed

/-- Nothing is sent after the marker and before the commit record of the calling transaction. -/
def NotOvertaken (h : History) (i xid : Nat) : Prop :=
  ∀ (j : ℕ) (r : WalRecord), i < j → h.records[j]? = some r → r.entry.isSent = true →
    ∃ (m : ℕ) (r' : WalRecord), m ≤ j ∧ h.records[m]? = some r' ∧ r'.entry = .commit xid true

theorem place_le {i j : Nat} {r' : WalRecord} (hr : h.records[i]? = some r)
    (hr' : h.records[j]? = some r') (hle : r.endLsn ≤ r'.endLsn) : i ≤ j := by
  by_contra hlt
  obtain ⟨hj, rfl⟩ := List.getElem?_eq_some_iff.1 hr'
  obtain ⟨hi, rfl⟩ := List.getElem?_eq_some_iff.1 hr
  have hordered := List.pairwise_iff_getElem.1 h.ordered j i hj hi (Nat.lt_of_not_le hlt)
  have hpos := h.length_pos _ (getElem_mem hi)
  omega

/-- **The marker is passed.** Something at or after it has been sent and applied. -/
theorem exists_sent_of_passed {i : Nat} (hr : h.records[i]? = some r) (hp : h.Passed next r.endLsn) :
    ∃ (j : ℕ) (r' : WalRecord),
      i ≤ j ∧ j < next ∧ h.records[j]? = some r' ∧ r'.entry.isSent = true := by
  have hmem := mem_of_getElem? hr
  have hstart := h.start_le r hmem
  have hpos := h.length_pos r hmem
  rcases hp with hle | ⟨j, r', hj, hr', hsent, hle⟩
  · omega
  · exact ⟨j, r', place_le hr hr' hle, hj, hr', hsent⟩

/-- **A waiter that returns true.** What was committed before the marker is there in every case; the
calling transaction is there, in every run, if and only if nothing is sent between the marker and
its commit record. -/
theorem syncEvent_iff (h : History) {i lo hi xid : Nat} {transactional : Bool}
    (hcall : h.records[i]? = some ⟨lo, hi, .marker xid transactional⟩) :
    (∀ events s enabled, run (Subscriber.step h) h.subscriber events = some s →
      waitForSyncEvent enabled (some s.position.remoteLsn) hi = true →
      Delivered h i xid transactional s) ↔
    (transactional = true → (∃ r ∈ h.records, ∃ published, r.entry = .commit xid published) →
      NotOvertaken h i xid) := by
  constructor
  · intro hall htrans hcommits j r hij hr hsent
    obtain ⟨hj, -⟩ := List.getElem?_eq_some_iff.1 hr
    obtain ⟨s, hrun, _, hreached⟩ := exists_run h (Nat.succ_le_of_lt hj)
    -- the waiter returns true once the record after the marker is applied
    have hwait : waitForSyncEvent (some true) (some s.position.remoteLsn) hi = true := by
      have hle : hi ≤ s.position.remoteLsn := by
        have hend := hreached j r (Nat.lt_succ_self j) hr hsent
        by_contra hlt
        have := place_le hr hcall (show r.endLsn ≤ hi by omega)
        omega
      exact decide_eq_true hle
    have hcaller := (hall _ s _ hrun hwait).caller htrans hcommits
    obtain ⟨m, r', _, hr', hcommit⟩ := ((decoded_run hrun).committed xid).1 hcaller
    exact ⟨m, r', by omega, hr', hcommit⟩
  · intro hsafe events s enabled hrun hwait
    have hdecoded := decoded_run hrun
    have hpassed : h.Passed s.next hi :=
      hdecoded.remoteLsn.imp (le_of_waitForSyncEvent hwait).trans
        fun ⟨j, r, hj, hr, hsent, hle⟩ =>
          ⟨j, r, hj, hr, hsent, (le_of_waitForSyncEvent hwait).trans hle⟩
    obtain ⟨j, r, _, _, hr, hsent⟩ := exists_sent_of_passed hcall hpassed
    refine ⟨fun k r' x hk hr' hcommit => ?_, fun htrans hcommits => ?_⟩
    · exact (hdecoded.committed x).2 ⟨k, r', by omega, hr', hcommit⟩
    · subst htrans
      -- the marker itself is not sent on its own, so what was sent comes after it
      have hne : i ≠ j := by
        rintro rfl
        rw [hcall, some_inj] at hr
        subst hr
        cases hsent
      obtain ⟨m, r', _, hr', hcommit⟩ := hsafe rfl hcommits j r (by omega) hr hsent
      exact (hdecoded.committed xid).2 ⟨m, r', by omega, hr', hcommit⟩

/-! ### A transaction that is overtaken -/

/-- Transaction 1 calls `spock.sync_event(true)`, and one record is written before it commits. -/
def sampleHistory (between : WalEntry) : History where
  start := 0
  records := [⟨10, 20, .marker 1 true⟩, ⟨20, 30, between⟩, ⟨30, 40, .commit 1 true⟩]
  start_le r _ := Nat.zero_le r.startLsn
  length_pos := by simp
  ordered := by simp

theorem syncEvent_iff_alone :
    NotOvertaken (sampleHistory .other) 0 1 ∧
    ∀ events s enabled,
      run (Subscriber.step (sampleHistory .other)) (sampleHistory .other).subscriber events = some s →
      waitForSyncEvent enabled (some s.position.remoteLsn) 20 = true →
      Delivered (sampleHistory .other) 0 1 true s := by
  have hsafe : NotOvertaken (sampleHistory .other) 0 1 := by
    intro j r hj hr hsent
    match j with
    | 1 => cases hr; cases hsent
    | 2 => exact ⟨2, _, le_refl 2, rfl, rfl⟩
  exact ⟨hsafe, (syncEvent_iff (sampleHistory .other) (i := 0) rfl).2 fun _ _ => hsafe⟩

/-- Transaction 2 commits between the marker of transaction 1 and the commit of transaction 1. Once
it is applied the waiter returns true, and transaction 1 has not even been sent. -/
theorem syncEvent_overtaken : ∃ s,
    run (Subscriber.step (sampleHistory (.commit 2 true))) (sampleHistory (.commit 2 true)).subscriber
      [.apply .wrote, .apply .wrote] = some s ∧
    waitForSyncEvent (some true) (some s.position.remoteLsn) 20 = true ∧
    s.committed = [2] ∧ ¬ Delivered (sampleHistory (.commit 2 true)) 0 1 true s := by
  refine ⟨⟨2, ⟨30, 30⟩, [2]⟩, rfl, rfl, rfl, fun hd => ?_⟩
  have hcaller := hd.caller rfl ⟨⟨30, 40, .commit 1 true⟩, by simp [sampleHistory], true, rfl⟩
  exact absurd hcaller (by decide)

end Spock.SyncEvent
