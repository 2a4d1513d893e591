import Spock.Sync.Invariant

/-!
# Spock — each step keeps the invariant of the handover

The steps that do not move the status of the table. The others are in `Sync/Statuses`.

* **`inv_publish`**, **`inv_grow`** — the WAL of the publisher;
* **`inv_fail`**, **`inv_idle`**, **`inv_own`** — the main worker between transactions.
-/

namespace Spock.Sync

open Runs

variable {s s' : System}

/-! ## Steps that leave the table alone -/

/-- The WAL grows, the origin's position may move, and the main worker goes on or fails. -/
structure Frame (s s' : System) : Prop where
  sync : s'.sync = s.sync
  initially : s'.initially = s.initially
  worker : s'.worker = s.worker
  cursor : s'.cursor = s.cursor
  next : s'.next = s.next
  syncingTables : s'.syncingTables = s.syncingTables
  times : ∀ i, s'.times i = s.times i
  wal : ∃ ts, s'.wal = s.wal ++ ts ∧ ∀ t ∈ ts, s.walEnd ≤ t.commitLsn
  walEnd : s.walEnd ≤ s'.walEnd
  origin : s.position.remoteLsn ≤ s'.position.remoteLsn
  waiting : ∀ x, s'.pc = .waiting x → s.pc = .waiting x
  fresh : s'.failed = false → s'.position.sessionLsn = 0 →
    s.failed = false ∧ s.position.sessionLsn = 0

variable {i lsn : Nat} {t : Txn}

/-- A transaction is an old one or comes after everything. -/
theorem Frame.get_cases (hf : Frame s s') (ht : s'.wal[i]? = some t) :
    s.wal[i]? = some t ∨ (s.wal.length ≤ i ∧ s.walEnd ≤ t.commitLsn) := by
  obtain ⟨_, hwal, hts⟩ := hf.wal
  rw [hwal] at ht
  rcases Nat.lt_or_ge i s.wal.length with hlt | hge
  · rw [List.getElem?_append_left hlt] at ht
    exact .inl ht
  · rw [List.getElem?_append_right hge] at ht
    exact .inr ⟨hge, hts t (List.mem_of_getElem? ht)⟩

theorem Frame.get_old (hf : Frame s s') (ht : s'.wal[i]? = some t) (hi : i < s.wal.length) :
    s.wal[i]? = some t :=
  (hf.get_cases ht).resolve_right fun h => absurd hi (Nat.not_lt.2 h.1)

theorem Frame.get_mono (hf : Frame s s') (ht : s.wal[i]? = some t) : s'.wal[i]? = some t := by
  obtain ⟨_, hwal, -⟩ := hf.wal
  obtain ⟨hi, -⟩ := List.getElem?_eq_some_iff.1 ht
  rw [hwal, List.getElem?_append_left hi]
  exact ht

theorem Frame.length_le (hf : Frame s s') : s.wal.length ≤ s'.wal.length := by
  obtain ⟨_, hwal, -⟩ := hf.wal
  rw [hwal, List.length_append]
  exact Nat.le_add_right _ _

/-- New transactions begin at the end of the old WAL, so that a position which cuts none of the old
ones cuts none. -/
theorem Boundary.frame (h : Boundary s lsn) (hf : Frame s s') : Boundary s' lsn := by
  refine ⟨h.le.trans hf.walEnd, fun t ht => ?_⟩
  obtain ⟨i, hi⟩ := List.getElem?_of_mem ht
  rcases hf.get_cases hi with hold | ⟨-, hnew⟩
  · exact h.cut t (List.mem_of_getElem? hold)
  · exact .inr (h.le.trans hnew)

/-- What is still to be handled commits after `lsn`, the new transactions included. -/
theorem NotPast.frame (h : NotPast s lsn) (hle : lsn ≤ s.walEnd) (hf : Frame s s') :
    NotPast s' lsn := by
  intro i t hi ht
  rw [hf.next] at hi
  rcases hf.get_cases ht with hold | ⟨-, hnew⟩
  · exact h i t hi hold
  · exact hle.trans hnew

/-- What has been received up to `lsn` stays so: the new transactions end later. -/
theorem Received.frame (h : Received s lsn) (hf : Frame s s') (hfailed : s'.failed = s.failed) :
    Received s' lsn := by
  refine ⟨hfailed.trans h.1, h.2.1.trans hf.walEnd, fun i t hi ht => ?_⟩
  rw [hf.next] at hi
  rcases hf.get_cases ht with hold | ⟨-, hnew⟩
  · exact h.2.2 i t hi hold
  · exact (h.2.1.trans hnew).trans_lt t.commitLsn_lt

/-- The transactions with `p` are in the table once, the others not at all, if no new one has `p`.
-/
theorem Once.frame {p : ℕ → Txn → Prop} (h : Once s p) (hf : Frame s s')
    (hnew : ∀ (i : ℕ) (t : Txn), s.wal.length ≤ i → s.walEnd ≤ t.commitLsn → ¬ p i t) :
    Once s' p where
  one i t ht hchanges hp := by
    rw [hf.times]
    rcases hf.get_cases ht with hold | ⟨hi, hle⟩
    · exact h.one i t hold hchanges hp
    · exact absurd hp (hnew i t hi hle)
  only i hne := by
    rw [hf.times] at hne
    obtain ⟨t, ht, hrest⟩ := h.only i hne
    exact ⟨t, hf.get_mono ht, hrest⟩

/-- The new transactions are among those that the sync worker has still to read. -/
theorem Slot.frame (h : Slot s lsn) (hf : Frame s s') : Slot s' lsn where
  le := h.le.trans hf.walEnd
  cursor_le := by
    rw [hf.cursor]
    exact h.cursor_le.trans hf.length_le
  before i t ht hi := by
    rw [hf.cursor] at hi
    exact h.before i t (hf.get_old ht (hi.trans_le h.cursor_le)) hi
  after i t ht hi := by
    rw [hf.cursor] at hi
    rcases hf.get_cases ht with hold | ⟨-, hnew⟩
    · exact h.after i t hold hi
    · exact h.le.trans hnew

/-- The list of the syncing tables is the same, and no wait begins. -/
theorem Skips.frame (h : Skips s) (hf : Frame s s') : Skips s' where
  list := by
    rw [hf.syncingTables]
    exact h.list
  pc x hx := h.pc x (hf.waiting x hx)

/-- **The phase of the table is the same.** It speaks of transactions that have been handled, by the
main worker or by the sync worker, and those are old ones. -/
theorem Phase.frame {sync : Option SpockSyncStatus} (h : Phase s sync) (hf : Frame s s')
    (hnext : s.next ≤ s.wal.length) : Phase s' sync := by
  -- the transactions that are handled are old ones
  have hold : ∀ {i : Nat} {t : Txn}, i < s'.next → s'.wal[i]? = some t →
      i < s.next ∧ s.wal[i]? = some t := by
    intro i t hi ht
    rw [hf.next] at hi
    exact ⟨hi, hf.get_old ht (hi.trans_le hnext)⟩
  have hcursor : s.cursor ≤ s.wal.length → Once s (fun i _ => i < s.cursor) →
      Once s' fun i _ => i < s'.cursor := by
    intro hle honce
    rw [hf.cursor]
    exact honce.frame hf fun i _ hi _ => by omega
  have hnone : (∀ i, s.times i = 0) → ∀ i, s'.times i = 0 := fun h i => (hf.times i).trans (h i)
  cases h with
  | absent hinitially hqueued hlist hworker hpc htimes =>
    refine .absent (hf.initially.trans hinitially) (fun i t hi ht => ?_)
      (hf.syncingTables.trans hlist) (hf.worker.trans hworker) (fun x hx => hpc x (hf.waiting x hx))
      (hnone htimes)
    exact hqueued i t (hold hi ht).1 (hold hi ht).2
  | beginning hstatus hskips htimes =>
    refine .beginning ?_ (hskips.frame hf) (hnone htimes)
    rw [hf.worker]
    exact hstatus
  | copying hstatus _ hskips hslot hfresh =>
    refine .copying ?_ (by rwa [hf.worker]) (hskips.frame hf) (hslot.frame hf) ?_
    · exact hstatus.imp (fun h => ⟨h.1, hnone h.2⟩) fun h => ⟨h.1, hcursor hslot.cursor_le h.2⟩
    · intro hzero hfailed hsession i t hi ht
      obtain ⟨hfailed, hsession⟩ := hf.fresh hfailed hsession
      rw [hf.worker] at hzero
      exact hfresh hzero hfailed hsession i t (hold hi ht).1 (hold hi ht).2
  | catchup hworker hlist hle hcursor_le hslot hskipped honce =>
    refine .catchup (hf.worker.trans hworker) ?_ (hle.trans hf.walEnd) ?_
      (fun h => (hslot h).frame hf) (fun i t hi ht => ?_) (hcursor hcursor_le honce)
    · rw [hf.syncingTables]
      exact hlist
    · rw [hf.cursor]
      exact hcursor_le.trans hf.length_le
    · exact hskipped i t (hold hi ht).1 (hold hi ht).2
  | @syncdone lsn hworker hlist hboundary hwritten honce =>
    refine .syncdone (hf.worker.trans hworker) ?_ (hboundary.frame hf) (fun i t hi ht hchanges => ?_) ?_
    · rw [hf.syncingTables]
      exact hlist
    · exact (hwritten i t (hold hi ht).1 (hold hi ht).2 hchanges).imp_right fun h => h.trans hf.origin
    · rw [hf.next]
      refine honce.frame hf fun i t hi ht hp => ?_
      have hlt := t.commitLsn_lt
      have hle := hboundary.le
      omega
  | ready hworker hlist hpc hwritten honce =>
    refine .ready (hf.worker.trans hworker) (hf.syncingTables.trans hlist)
      (fun x hx => hpc x (hf.waiting x hx)) (fun i t hi ht hchanges => ?_) ?_
    · exact (hwritten i t (hold hi ht).1 (hold hi ht).2 hchanges).trans hf.origin
    · rw [hf.next]
      exact honce.frame hf fun i _ hi _ => by omega

/-- Where the main worker stands is not touched either. -/
theorem MainOk.frame (h : MainOk s) (hf : Frame s s') (hposition : s'.position = s.position)
    (hfailed : s'.failed = s.failed) (hpc : s'.pc = s.pc) : MainOk s' where
  next_le := by
    rw [hf.next]
    exact h.next_le.trans hf.length_le
  origin_boundary := by
    rw [hposition]
    exact h.origin_boundary.frame hf
  origin_le := by
    rw [hposition]
    exact h.origin_le.frame h.origin_boundary.le hf
  session_boundary hok := by
    rw [hposition]
    exact (h.session_boundary (hfailed ▸ hok)).frame hf
  session_le hok := by
    rw [hposition]
    exact (h.session_le (hfailed ▸ hok)).frame (h.session_boundary (hfailed ▸ hok)).le hf
  handled hok := by
    have hold : ∀ {i : Nat} {t : Txn}, i < s.next → s'.wal[i]? = some t → s.wal[i]? = some t :=
      fun hi ht => hf.get_old ht (hi.trans_le h.next_le)
    unfold Handled
    rw [hposition, hf.next]
    refine (h.handled (hfailed ▸ hok)).imp (fun hfresh => ?_) fun hall => ?_
    · exact ⟨hfresh.1, fun i t hi ht => hfresh.2 i t hi (hold hi ht)⟩
    · exact fun i t hi ht => hall i t hi (hold hi ht)
  received x hx := (h.received x (hpc ▸ hx)).frame hf hfailed

/-! ### The publisher -/

/-- A transaction is added to the WAL. If it changes the table, TABLESYNC was sent before it or with
it. -/
theorem WalOk.publish (h : WalOk s) (hle : s.walEnd ≤ t.commitLsn)
    (hannounces : s.announces t = true) :
    WalOk { s with wal := s.wal ++ [t], walEnd := t.endLsn } := by
  have hlt := t.commitLsn_lt
  refine ⟨?_, ?_, ?_⟩
  · refine List.pairwise_append.2 ⟨h.ordered, List.pairwise_singleton _ _, fun u hu v hv => ?_⟩
    rw [List.mem_singleton.1 hv]
    exact (h.le u hu).trans hle
  · intro u hu
    show u.endLsn ≤ t.endLsn
    rcases List.mem_append.1 hu with hu | hu
    · have := h.le u hu
      omega
    · rw [List.mem_singleton.1 hu]
  · intro i u hu hchanges
    have hmono : ∀ {j : Nat} {v : Txn}, s.wal[j]? = some v → (s.wal ++ [t])[j]? = some v := by
      intro j v hv
      obtain ⟨hj, -⟩ := List.getElem?_eq_some_iff.1 hv
      rwa [List.getElem?_append_left hj]
    rcases Nat.lt_trichotomy i s.wal.length with hi | rfl | hi
    · rw [List.getElem?_append_left hi] at hu
      refine (h.announced i u hu hchanges).imp_right ?_
      exact fun ⟨j, v, hj, hv, hsync⟩ => ⟨j, v, hj, hmono hv, hsync⟩
    · -- the new transaction
      rw [List.getElem?_concat_length, Option.some_inj] at hu
      subst hu
      simp only [System.announces, hchanges, Bool.not_true, Bool.false_or, Bool.or_eq_true,
        List.any_eq_true] at hannounces
      rcases hannounces with (hinitially | hsync) | ⟨v, hv, hsync⟩
      · exact .inl hinitially
      · exact .inr ⟨_, t, le_refl _, List.getElem?_concat_length, hsync⟩
      · obtain ⟨j, hj⟩ := List.getElem?_of_mem hv
        obtain ⟨hlt, -⟩ := List.getElem?_eq_some_iff.1 hj
        exact .inr ⟨j, v, hlt.le, hmono hj, hsync⟩
    · rw [List.getElem?_eq_none (by rw [List.length_append]; exact hi)] at hu
      cases hu

/-- Whatever is added to the WAL, nobody has seen it yet. -/
theorem inv_wal (h : Inv s) {wal : List Txn} {walEnd : Nat}
    (hwal : ∃ l, wal = s.wal ++ l ∧ ∀ t ∈ l, s.walEnd ≤ t.commitLsn) (hle : s.walEnd ≤ walEnd)
    (hok : WalOk { s with wal := wal, walEnd := walEnd }) :
    Inv { s with wal := wal, walEnd := walEnd } := by
  have hf : Frame s { s with wal := wal, walEnd := walEnd } :=
    { sync := rfl, initially := rfl, worker := rfl, cursor := rfl, next := rfl, syncingTables := rfl
      times := fun _ => rfl
      wal := hwal
      walEnd := hle
      origin := le_refl _
      waiting := fun _ hx => hx
      fresh := fun hfailed hsession => ⟨hfailed, hsession⟩ }
  exact ⟨hok, h.main.frame hf rfl rfl rfl, h.phase.frame hf h.main.next_le⟩

/-- The publisher commits a transaction. -/
theorem inv_publish (h : Inv s) (hle : s.walEnd ≤ t.commitLsn) (hannounces : s.announces t = true) :
    Inv { s with wal := s.wal ++ [t], walEnd := t.endLsn } := by
  refine inv_wal h ⟨[t], rfl, fun u hu => ?_⟩ (hle.trans t.commitLsn_lt.le)
    (h.wal.publish hle hannounces)
  rwa [List.mem_singleton.1 hu]

/-- The WAL grows by records that are not for the subscriber. -/
theorem inv_grow (h : Inv s) {walEnd : Nat} (hle : s.walEnd ≤ walEnd) :
    Inv { s with walEnd := walEnd } :=
  inv_wal h ⟨[], (List.append_nil _).symm, nofun⟩ hle
    { h.wal with le := fun t ht => (h.wal.le t ht).trans hle }

/-! ### The main worker between transactions -/

/-- A step of the main worker between transactions touches four fields. -/
theorem frame_main {pc : Pc} {position : Position} {syncPending failed : Bool}
    (horigin : s.position.remoteLsn ≤ position.remoteLsn)
    (hwaiting : ∀ x, pc = .waiting x → s.pc = .waiting x)
    (hfresh : failed = false → position.sessionLsn = 0 →
      s.failed = false ∧ s.position.sessionLsn = 0) :
    Frame s { s with pc := pc, position := position, syncPending := syncPending, failed := failed } :=
  { sync := rfl, initially := rfl, worker := rfl, cursor := rfl, next := rfl, syncingTables := rfl
    times := fun _ => rfl
    wal := ⟨[], (List.append_nil _).symm, nofun⟩
    walEnd := le_refl _
    origin := horigin
    waiting := hwaiting
    fresh := hfresh }

/-- A transaction fails. The session origin has been set to its commit LSN, or to its end if the
origin was staged, and is not to be relied upon until the worker starts again. -/
theorem inv_fail (h : Inv s) (hpc : s.pc = .loop) (staged : Bool) (syncPending : Bool) :
    Inv { s with
      position := { s.position with sessionLsn := if staged then t.endLsn else t.commitLsn }
      syncPending := syncPending
      failed := true } := by
  refine ⟨{ h.wal with }, ?_, ?_⟩
  · refine ⟨h.main.next_le, { h.main.origin_boundary with }, h.main.origin_le,
      nofun, nofun, nofun, fun x hx => ?_⟩
    have hx : s.pc = .processing x ∨ s.pc = .waiting x := hx
    rw [hpc] at hx
    rcases hx with hx | hx <;> cases hx
  · exact h.phase.frame (frame_main (le_refl _) (fun _ hx => hx) nofun) h.main.next_le

/-- Everything up to `lsn` has been received, and the syncing tables are looked at. -/
theorem inv_idle (h : Inv s) (hreceived : s.hasReceived lsn = true) (hfailed : s.failed = false) :
    Inv { s with pc := .processing lsn } := by
  refine ⟨{ h.wal with }, ?_, ?_⟩
  · obtain ⟨hm1, hm2, hm3, hm4, hm5, hm6, -⟩ := h.main
    refine ⟨hm1, { hm2 with }, hm3, fun hok => { hm4 hok with }, hm5, hm6, ?_⟩
    rintro x (hx | hx)
    · cases hx
      simp only [System.hasReceived, hfailed, Bool.false_eq_true, if_false, Bool.and_eq_true,
        decide_eq_true_eq, List.all_eq_true] at hreceived
      refine ⟨hfailed, hreceived.1, fun i t hi ht => hreceived.2 t ?_⟩
      refine List.mem_of_getElem? (i := i - s.next) ?_
      rw [List.getElem?_drop, Nat.add_sub_cancel' hi]
      exact ht
    · cases hx
  · refine h.phase.frame (frame_main (le_refl _) (fun _ hx => ?_) fun h0 h1 => ⟨h0, h1⟩) h.main.next_le
    cases hx

/-- A commit of the worker's own moves the origin to where the session stands. -/
theorem MainOk.commit (h : MainOk s) (hfailed : s.failed = false) :
    MainOk { s with position := s.position.commit } where
  __ := h
  origin_boundary := by
    have := h.origin_boundary.max (h.session_boundary hfailed)
    exact { this with }
  origin_le := h.origin_le.max (h.session_le hfailed)
  session_boundary hok := { h.session_boundary hok with }
  handled hok := by
    refine (h.handled hok).imp_left fun hfresh => ⟨hfresh.1, fun i t hi ht => ?_⟩
    exact (hfresh.2 i t hi ht).trans (Nat.le_max_left _ _)

theorem frame_commit (s : System) : Frame s { s with position := s.position.commit } :=
  frame_main (Nat.le_max_left _ _) (fun _ hx => hx) fun h0 h1 => ⟨h0, h1⟩

/-- A local transaction that handled no remote one. -/
theorem inv_own (h : Inv s) (hfailed : s.failed = false) :
    Inv { s with position := s.position.commit } :=
  ⟨{ h.wal with }, h.main.commit hfailed,
    h.phase.frame (frame_commit s) h.main.next_le⟩

/-! ## A transaction -/

/-- The origin is advanced to the end of the transaction unless nothing was written, and the session
origin is at its end unless it was empty. -/
theorem settle_begin (p : Position) (commitLsn endLsn : Nat) (o : Ending) :
    ((p.begin commitLsn).settle endLsn o).remoteLsn =
        (if o = .readOnly then p.remoteLsn else max p.remoteLsn endLsn) ∧
      ((p.begin commitLsn).settle endLsn o).sessionLsn = if o = .empty then commitLsn else endLsn := by
  cases o <;> exact ⟨rfl, rfl⟩

section Txn

variable {o : Ending}

/-- A transaction with changes does not end as an empty one. -/
theorem ne_empty_of_canEnd (hcan : s.canEnd t o = true) (hchanges : t.changes = true) :
    o ≠ .empty := by
  rintro rfl
  simp [System.canEnd, hchanges] at hcan

/-- Changes that are not skipped are written. -/
theorem eq_wrote_of_canEnd (hcan : s.canEnd t o = true) (hchanges : t.changes = true)
    (happlies : System.shouldApplyChangesForRel s.syncingTables t.commitLsn = true) : o = .wrote := by
  have hwrote := (Bool.and_eq_true_iff.1 hcan).1
  simpa [happlies, hchanges] using hwrote

/-- After a transaction both positions are at its edges, or where they were. -/
theorem MainOk.handleTxn (h : MainOk s) (hwal : WalOk s) (ht : s.wal[s.next]? = some t)
    (hcan : s.canEnd t o = true) : MainOk (s.handleTxn t o) := by
  have hlt := t.commitLsn_lt
  obtain ⟨hcommit, hend⟩ := hwal.boundary ht
  obtain ⟨horigin, hsession⟩ := settle_begin s.position t.commitLsn t.endLsn o
  have hafter : ∀ (i : ℕ) (u : Txn), s.next + 1 ≤ i → s.wal[i]? = some u →
      t.endLsn ≤ u.commitLsn := fun i u hi hu => hwal.end_le_commit ht hu hi
  have hbefore : ∀ (i : ℕ) (u : Txn), i < s.next → s.wal[i]? = some u →
      u.endLsn ≤ t.commitLsn := fun i u hi hu => hwal.end_le_commit hu ht hi
  refine ⟨(List.getElem?_eq_some_iff.1 ht).1, ?_, ?_, fun _ => ?_, fun _ => ?_, fun _ => .inr ?_, ?_⟩
  · show Boundary _ ((s.position.begin t.commitLsn).settle t.endLsn o).remoteLsn
    rw [horigin]
    have hmax := h.origin_boundary.max hend
    split
    · exact { h.origin_boundary with }
    · exact { hmax with }
  · show NotPast _ ((s.position.begin t.commitLsn).settle t.endLsn o).remoteLsn
    intro i u hi hu
    rw [horigin]
    have hold : s.position.remoteLsn ≤ u.commitLsn := h.origin_le i u (by exact Nat.le_of_succ_le hi) hu
    have hnew := hafter i u hi hu
    split <;> omega
  · show Boundary _ ((s.position.begin t.commitLsn).settle t.endLsn o).sessionLsn
    rw [hsession]
    split
    · exact { hcommit with }
    · exact { hend with }
  · show NotPast _ ((s.position.begin t.commitLsn).settle t.endLsn o).sessionLsn
    intro i u hi hu
    rw [hsession]
    have hnew := hafter i u hi hu
    split <;> omega
  · show ∀ (i : ℕ) (u : Txn), i < s.next + 1 → s.wal[i]? = some u → u.changes = true →
      u.endLsn ≤ ((s.position.begin t.commitLsn).settle t.endLsn o).sessionLsn
    intro i u hi hu hchanges
    rw [hsession]
    rcases Nat.lt_succ_iff_lt_or_eq.1 hi with hi | rfl
    · have hold := hbefore i u hi hu
      split <;> omega
    · rw [ht, Option.some_inj] at hu
      subst hu
      rw [if_neg (ne_empty_of_canEnd hcan hchanges)]
  · rintro x (hx | hx)
    · cases hx
      exact ⟨rfl, hend.le, fun i u hi hu => (hafter i u hi hu).trans_lt u.commitLsn_lt⟩
    · cases hx

/-- Changes that are skipped do not reach the table. -/
theorem handleTxn_times_skip
    (h : (System.shouldApplyChangesForRel s.syncingTables t.commitLsn && t.changes) = false) (i : Nat) :
    (s.handleTxn t o).times i = s.times i := by
  have happlied : (s.handleTxn t o).applied = s.applied := by
    show (if (System.shouldApplyChangesForRel s.syncingTables t.commitLsn && t.changes) = true then _
      else _) = _
    rw [h]
    rfl
  unfold System.times
  rw [happlied]
  rfl

/-- Changes that are not skipped reach it once more. -/
theorem handleTxn_times_apply
    (h : System.shouldApplyChangesForRel s.syncingTables t.commitLsn = true)
    (hchanges : t.changes = true) (i : Nat) :
    (s.handleTxn t o).times i = s.times i + if i = s.next then 1 else 0 := by
  have happlied : (s.handleTxn t o).applied = s.applied ++ [s.next] := by
    show (if (System.shouldApplyChangesForRel s.syncingTables t.commitLsn && t.changes) = true then _
      else _) = _
    rw [h, hchanges]
    rfl
  have hcount : [s.next].count i = if i = s.next then 1 else 0 := by
    rw [List.count_singleton]
    simp only [beq_iff_eq, eq_comm (a := i)]
  unfold System.times
  rw [happlied, List.count_append, hcount]
  exact (Nat.add_assoc _ _ _).symm

/-- A table that is being copied: its changes are skipped. -/
theorem Skips.shouldApply (h : Skips s) {row : SpockSyncStatus} (hrow : s.syncingTables = some row)
    (lsn : Nat) : System.shouldApplyChangesForRel s.syncingTables lsn = false := by
  have hcopying := h.list row hrow
  obtain ⟨status, _⟩ := row
  rw [hrow]
  cases status <;> first | rfl | cases hcopying

theorem Skips.handleTxn (h : Skips s) : Skips (s.handleTxn t o) := ⟨h.list, nofun⟩

theorem Skips.times_handleTxn (h : Skips s)
    (hlisted : t.changes = true → ∃ row, s.syncingTables = some row) (i : Nat) :
    (s.handleTxn t o).times i = s.times i := by
  refine handleTxn_times_skip ?_ i
  cases hchanges : t.changes with
  | false => exact Bool.and_false _
  | true =>
    obtain ⟨_, hrow⟩ := hlisted hchanges
    rw [h.shouldApply hrow, Bool.false_and]

theorem handleTxn_origin_le (s : System) (t : Txn) (o : Ending) :
    s.position.remoteLsn ≤ (s.handleTxn t o).position.remoteLsn := by
  show _ ≤ ((s.position.begin t.commitLsn).settle t.endLsn o).remoteLsn
  rw [(settle_begin s.position t.commitLsn t.endLsn o).1]
  split
  · exact le_refl _
  · exact Nat.le_max_left _ _

/-- Once its changes are applied, the origin is past the transaction: it will not be sent again. -/
theorem end_le_handleTxn_origin (hcan : s.canEnd t o = true) (hchanges : t.changes = true)
    (happlies : System.shouldApplyChangesForRel s.syncingTables t.commitLsn = true) :
    t.endLsn ≤ (s.handleTxn t o).position.remoteLsn := by
  obtain rfl := eq_wrote_of_canEnd hcan hchanges happlies
  exact Nat.le_max_right _ _

/-- What has been handled then was handled before, or is the transaction. -/
theorem lt_next_or_eq (ht : s.wal[s.next]? = some t) {i : Nat} {u : Txn} (hi : i < s.next + 1)
    (hu : s.wal[i]? = some u) : i < s.next ∨ u = t := by
  refine (Nat.lt_succ_iff_lt_or_eq.1 hi).imp_right fun heq => ?_
  rw [heq, ht, Option.some_inj] at hu
  exact hu.symm

/-- After the sync worker has ended: what it has brought is skipped. -/
theorem Phase.handleTxn_syncdone {lsn : Nat} (ht : s.wal[s.next]? = some t)
    (hcan : s.canEnd t o = true)
    (hcareful : t.changes = true → ∃ row, s.syncingTables = some row ∧ row.status ≠ .catchup)
    (hworker : s.worker = none)
    (hlist : ∀ row, s.syncingTables = some row → row.status = .catchup ∨ row = ⟨.syncdone, lsn⟩)
    (hboundary : Boundary s lsn)
    (hwritten : ∀ (i : ℕ) (u : Txn), i < s.next → s.wal[i]? = some u → u.changes = true →
      u.endLsn ≤ lsn ∨ u.endLsn ≤ s.position.remoteLsn)
    (honce : Once s fun i u => u.endLsn ≤ lsn ∨ i < s.next) :
    Phase (s.handleTxn t o) (some ⟨.syncdone, lsn⟩) := by
  have hlt := t.commitLsn_lt
  have hlist' : ∀ row, (s.handleTxn t o).syncingTables = some row →
      row.status = .catchup ∨ row = ⟨.syncdone, lsn⟩ := hlist
  have hboundary' : Boundary (s.handleTxn t o) lsn := { hboundary with }
  have hwritten' : (t.changes = true →
      t.endLsn ≤ lsn ∨ t.endLsn ≤ (s.handleTxn t o).position.remoteLsn) →
      ∀ (i : ℕ) (u : Txn), i < s.next + 1 → s.wal[i]? = some u → u.changes = true →
        u.endLsn ≤ lsn ∨ u.endLsn ≤ (s.handleTxn t o).position.remoteLsn := by
    intro hthere i u hi hu hu'
    rcases lt_next_or_eq ht hi hu with hi | rfl
    · exact (hwritten i u hi hu hu').imp_right fun h => h.trans (handleTxn_origin_le s t o)
    · exact hthere hu'
  -- nothing is added: the transaction is there already, or does not change the table
  have hskip : (t.changes = true → t.endLsn ≤ lsn) → (∀ i, (s.handleTxn t o).times i = s.times i) →
      Phase (s.handleTxn t o) (some ⟨.syncdone, lsn⟩) := by
    intro hthere htimes
    refine .syncdone hworker hlist' hboundary' (hwritten' fun hchanges => .inl (hthere hchanges))
      (honce.congr rfl htimes fun i u hu hu' => ?_)
    show _ ∨ i < s.next + 1 ↔ _
    refine ⟨fun h => ?_, fun h => h.imp_right fun h => by omega⟩
    rcases h with h | h
    · exact .inl h
    · rcases lt_next_or_eq ht h hu with h | rfl
      · exact .inr h
      · exact .inl (hthere hu')
  cases hchanges : t.changes with
  | false => exact hskip (by simp [hchanges]) (handleTxn_times_skip (by rw [hchanges, Bool.and_false]))
  | true =>
    obtain ⟨row, hrow, hne⟩ := hcareful hchanges
    obtain rfl := (hlist row hrow).resolve_left hne
    have happlies : System.shouldApplyChangesForRel s.syncingTables t.commitLsn
        = decide (lsn ≤ t.commitLsn) := by
      rw [hrow]
      rfl
    rcases hboundary.cut t (List.mem_of_getElem? ht) with hin | hafter
    · refine hskip (fun _ => hin) (handleTxn_times_skip ?_)
      rw [happlies, decide_eq_false (by omega), Bool.false_and]
    · -- the transaction comes after the sync worker's last
      rw [decide_eq_true hafter] at happlies
      have hthere := end_le_handleTxn_origin hcan hchanges happlies
      refine .syncdone hworker hlist' hboundary' (hwritten' fun _ => .inr hthere)
        (honce.add rfl ht hchanges ?_ (handleTxn_times_apply happlies hchanges) fun i u hu hu' => ?_)
      · rintro (h | h) <;> omega
      · show _ ∨ i < s.next + 1 ↔ _
        rw [Nat.lt_succ_iff_lt_or_eq, or_assoc]

/-- **A transaction in each phase** of a table that has a status: skipped while the table is copied,
without changes of it during the catch-up, and applied in the end. -/
theorem Phase.handleTxn {sync : SpockSyncStatus} (h : Phase s (some sync))
    (ht : s.wal[s.next]? = some t) (hcan : s.canEnd t o = true)
    (hcareful : t.changes = true → sync.status ≠ .ready →
      ∃ row, s.syncingTables = some row ∧ row.status ≠ .catchup) :
    Phase (s.handleTxn t o) (some sync) := by
  have hlisted : sync.status ≠ .ready → t.changes = true → ∃ row, s.syncingTables = some row :=
    fun hne hchanges => (hcareful hchanges hne).imp fun _ h => h.1
  cases h with
  | beginning hstatus hskips hnone =>
    refine .beginning hstatus hskips.handleTxn fun i => ?_
    rw [hskips.times_handleTxn (hlisted (by rcases hstatus with h | h <;> simp [h])), hnone]
  | copying hstatus hworker hskips hslot =>
    have htimes : ∀ i, (s.handleTxn t o).times i = s.times i :=
      hskips.times_handleTxn (hlisted (by rcases hstatus with h | h <;> simp [h.1]))
    refine .copying ?_ hworker hskips.handleTxn
      { hslot with } fun _ _ hzero => ?_
    · exact hstatus.imp (fun h => ⟨h.1, fun i => (htimes i).trans (h.2 i)⟩)
        fun h => ⟨h.1, h.2.congr rfl htimes fun _ _ _ _ => Iff.rfl⟩
    · -- a transaction has been handled
      have hpos := t.commitLsn_pos
      have hlt := t.commitLsn_lt
      have hzero : ((s.position.begin t.commitLsn).settle t.endLsn o).sessionLsn = 0 := hzero
      rw [(settle_begin s.position t.commitLsn t.endLsn o).2] at hzero
      split at hzero <;> omega
  | catchup hworker hlist hwalEnd hcursor hslot hskipped honce =>
    have hchanges : t.changes = false := by
      by_contra htrue
      obtain ⟨row, hrow, hne⟩ := hcareful ((Bool.not_eq_false _).mp htrue) nofun
      exact hne (hlist row hrow)
    have htimes : ∀ i, (s.handleTxn t o).times i = s.times i :=
      handleTxn_times_skip (by rw [hchanges, Bool.and_false])
    refine .catchup hworker hlist hwalEnd hcursor (fun h => ?_) (fun i u hi hu hu' => ?_)
      (honce.congr rfl htimes fun _ _ _ _ => Iff.rfl)
    · exact { hslot h with }
    · rcases lt_next_or_eq ht hi hu with hi | rfl
      · exact hskipped i u hi hu hu'
      · cases hchanges.symm.trans hu'
  | syncdone hworker hlist hboundary hwritten honce =>
    exact handleTxn_syncdone ht hcan (fun hchanges => hcareful hchanges nofun) hworker hlist
      hboundary hwritten honce
  | ready hworker hlist _ hwritten honce =>
    have happlies : System.shouldApplyChangesForRel s.syncingTables t.commitLsn = true := by
      rw [hlist]
      rfl
    refine .ready hworker hlist nofun (fun i u hi hu hu' => ?_) ?_
    · rcases lt_next_or_eq ht hi hu with hi | rfl
      · exact (hwritten i u hi hu hu').trans (handleTxn_origin_le s t o)
      · exact end_le_handleTxn_origin hcan hu' happlies
    · cases hchanges : t.changes with
      | false =>
        refine honce.congr rfl (handleTxn_times_skip (by rw [hchanges, Bool.and_false]))
          fun i u hu hu' => ⟨fun h => ?_, fun h => by exact Nat.lt_succ_of_lt h⟩
        rcases lt_next_or_eq ht h hu with h | rfl
        · exact h
        · cases hchanges.symm.trans hu'
      | true =>
        refine honce.add rfl ht hchanges (Nat.lt_irrefl _) (handleTxn_times_apply happlies hchanges)
          fun i u _ _ => ?_
        exact Nat.lt_succ_iff_lt_or_eq

/-- **A transaction** that the main worker handles. -/
theorem inv_handleTxn (h : Inv s) (ht : s.wal[s.next]? = some t) (hcan : s.canEnd t o = true)
    (hcareful : t.changes = true → (t.tableSync = true → s.sync ≠ none) ∧
      ∀ sync, s.sync = some sync → sync.status ≠ .ready →
        ∃ row, s.syncingTables = some row ∧ row.status ≠ .catchup) : Inv (s.handleTxn t o) := by
  refine ⟨{ h.wal with }, h.main.handleTxn h.wal ht hcan, ?_⟩
  have hphase := h.phase
  cases hsync : s.sync with
  | some sync =>
    have hsync' : (s.handleTxn t o).sync = some sync := by
      show (if (t.tableSync && s.sync.isNone) = true then _ else s.sync) = _
      rw [hsync, Option.isNone_some, Bool.and_false]
      rfl
    rw [hsync] at hphase
    rw [hsync']
    exact hphase.handleTxn ht hcan fun hchanges => (hcareful hchanges).2 sync hsync
  | none =>
    rw [hsync] at hphase
    cases hphase with
    | absent hinitially hqueued hlist hworker _ hnone =>
      -- the table is not published before its TABLESYNC message
      have hchanges : t.changes = false := by
        by_contra htrue
        have hchanges := (Bool.not_eq_false _).mp htrue
        rcases h.wal.announced s.next t ht hchanges with h | ⟨j, u, hj, hu, hu'⟩
        · cases hinitially.symm.trans h
        · rcases Nat.lt_or_eq_of_le hj with hj | rfl
          · rw [hqueued j u hj hu] at hu'
            cases hu'
          · rw [ht, Option.some_inj] at hu
            subst hu
            exact (hcareful hchanges).1 hu' hsync
      have htimes : ∀ i, (s.handleTxn t o).times i = 0 := fun i =>
        (handleTxn_times_skip (by rw [hchanges, Bool.and_false]) i).trans (hnone i)
      have hsync' : (s.handleTxn t o).sync = if t.tableSync = true then some ⟨.init, 0⟩ else none := by
        show (if (t.tableSync && s.sync.isNone) = true then _ else s.sync) = _
        rw [hsync, Option.isNone_none, Bool.and_true]
      rw [hsync']
      cases htable : t.tableSync with
      | true =>
        have hskips : Skips (s.handleTxn t o) := by
          refine ⟨fun row hrow => ?_, nofun⟩
          have hrow : s.syncingTables = some row := hrow
          cases hlist.symm.trans hrow
        exact .beginning (.inl rfl) hskips htimes
      | false =>
        refine .absent hinitially (fun i u hi hu => ?_) hlist hworker nofun htimes
        rcases Nat.lt_succ_iff_lt_or_eq.1 hi with hi | rfl
        · exact hqueued i u hi hu
        · have hu : s.wal[s.next]? = some u := hu
          rw [ht, Option.some_inj] at hu
          rwa [← hu]

end Txn

end Spock.Sync
