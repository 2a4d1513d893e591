import Mathlib.Data.List.Nodup
import Spock.Sync.Steps

/-!
# Spock — the steps that move a table's status keep the invariant
-/

namespace Spock.Sync

open Runs List Option

variable {s s' : System}

/-! ## The list of the main worker -/

theorem MainOk.congr (h : MainOk s) (hwal : s'.wal = s.wal) (hwalEnd : s'.walEnd = s.walEnd)
    (hnext : s'.next = s.next) (hposition : s'.position = s.position) (hfailed : s'.failed = s.failed)
    (hpc : ∀ x, s'.pc = .processing x ∨ s'.pc = .waiting x → Received s x) : MainOk s' := by
  have hboundary : ∀ {lsn}, Boundary s lsn → Boundary s' lsn := fun hb =>
    ⟨by rw [hwalEnd]; exact hb.le, by rw [hwal]; exact hb.cut⟩
  have hnotPast : ∀ {lsn}, NotPast s lsn → NotPast s' lsn := by
    unfold NotPast
    rw [hwal, hnext]
    exact fun h => h
  refine ⟨?_, ?_, ?_, fun hok => ?_, fun hok => ?_, fun hok => ?_, fun x hx => ?_⟩
  · rw [hwal, hnext]
    exact h.next_le
  · rw [hposition]
    exact hboundary h.origin_boundary
  · rw [hposition]
    exact hnotPast h.origin_le
  · rw [hposition]
    exact hboundary (h.session_boundary (hfailed ▸ hok))
  · rw [hposition]
    exact hnotPast (h.session_le (hfailed ▸ hok))
  · unfold Handled
    rw [hwal, hnext, hposition]
    exact h.handled (hfailed ▸ hok)
  · unfold Received
    rw [hwal, hwalEnd, hnext, hfailed]
    exact hpc x hx

theorem WalOk.congr (h : WalOk s) (hwal : s'.wal = s.wal) (hwalEnd : s'.walEnd = s.walEnd)
    (hinitially : s'.initially = s.initially) : WalOk s' :=
  ⟨by rw [hwal]; exact h.ordered, by rw [hwal, hwalEnd]; exact h.le,
    by rw [hwal, hinitially]; exact h.announced⟩

section List

variable {list : Option SpockSyncStatus} {pending : Bool} {pc : Pc}

theorem Phase.relist {sync : Option SpockSyncStatus} (h : Phase s sync)
    (hlist : ∀ row, list = some row →
      s.syncingTables = some row ∨ (sync = some row ∧ row.status ≠ .ready))
    (hpc : ∀ x, pc = .waiting x → s.pc = .waiting x) :
    Phase { s with syncingTables := list, syncPending := pending, pc := pc } sync := by
  cases h with
  | absent hinitially hqueued hold hworker hwaiting hnone =>
    refine .absent hinitially hqueued ?_ hworker (fun x hx => hwaiting x (hpc x hx)) hnone
    refine eq_none_iff_forall_ne_some.2 fun row hrow => ?_
    rcases hlist row hrow with h | ⟨h, -⟩
    · cases hold.symm.trans h
    · cases h
  | beginning hstatus hskips hnone =>
    refine .beginning hstatus ⟨fun row hrow => ?_, fun x hx => hskips.pc x (hpc x hx)⟩ hnone
    rcases hlist row hrow with h | ⟨h, -⟩
    · exact hskips.list row h
    · cases h
      rcases hstatus with h | ⟨h, -⟩ <;> rw [h] <;> rfl
  | copying hstatus hworker hskips hslot hfresh =>
    refine .copying ?_ hworker ⟨fun row hrow => ?_, fun x hx => hskips.pc x (hpc x hx)⟩
      { hslot with } hfresh
    · exact hstatus.imp_right fun h => ⟨h.1, { h.2 with }⟩
    · rcases hlist row hrow with h | ⟨h, -⟩
      · exact hskips.list row h
      · cases h
        rcases hstatus with ⟨h, -⟩ | ⟨h, -⟩ <;> rw [h] <;> rfl
  | catchup hworker hold hle hcursor hslot hskipped honce =>
    refine .catchup hworker (fun row hrow => ?_) hle hcursor (fun h => ?_) hskipped
      { honce with }
    · rcases hlist row hrow with h | ⟨h, -⟩
      · exact hold row h
      · cases h
        rfl
    · exact { hslot h with }
  | syncdone hworker hold hboundary hwritten honce =>
    refine .syncdone hworker (fun row hrow => ?_) { hboundary with } hwritten
      { honce with }
    rcases hlist row hrow with h | ⟨h, -⟩
    · exact hold row h
    · cases h
      exact .inr rfl
  | ready hworker hold hwaiting hwritten honce =>
    refine .ready hworker ?_ (fun x hx => hwaiting x (hpc x hx)) hwritten { honce with }
    refine eq_none_iff_forall_ne_some.2 fun row hrow => ?_
    rcases hlist row hrow with h | ⟨h, hne⟩
    · cases hold.symm.trans h
    · cases h
      exact hne rfl

theorem inv_relist (h : Inv s) (hlist : ∀ row, list = some row →
      s.syncingTables = some row ∨ (s.sync = some row ∧ row.status ≠ .ready))
    (hpc : pc = .loop ∨ pc = s.pc) :
    Inv { s with syncingTables := list, syncPending := pending, pc := pc } := by
  have hpc' : ∀ x, pc = .processing x ∨ pc = .waiting x → pc = s.pc := by
    intro x hx
    refine hpc.resolve_left ?_
    rintro rfl
    rcases hx with hx | hx <;> cases hx
  refine ⟨h.wal.congr rfl rfl rfl, h.main.congr rfl rfl rfl rfl rfl fun x hx => ?_, ?_⟩
  · exact h.main.received x (hpc' x hx ▸ hx)
  · exact h.phase.relist hlist fun x hx => hpc' x (.inr hx) ▸ hx

end List

/-! ## The main worker -/

section Process

variable {sync : SpockSyncStatus} {x : Nat} {busy : Bool}

theorem inv_startSyncWorker (h : Inv s) (hsync : s.sync = some sync) (hdone : sync.status ≠ .syncdone)
    (hready : sync.status ≠ .ready) : Inv (s.startSyncWorker busy) := by
  unfold System.startSyncWorker
  split
  case isFalse => exact h
  case isTrue hstart =>
    have hnone : s.worker = none := isNone_iff_eq_none.1 (Bool.and_eq_true_iff.1 hstart).1
    refine ⟨h.wal.congr rfl rfl rfl, h.main.congr rfl rfl rfl rfl rfl h.main.received, ?_⟩
    have hphase := h.phase
    rw [hsync] at hphase
    show Phase _ s.sync
    rw [hsync]
    cases hphase with
    | beginning hstatus hskips htimes =>
      exact .beginning (hstatus.imp_right fun h => ⟨h.1, nofun⟩) { hskips with } htimes
    | copying _ hworker => exact absurd hnone hworker
    | catchup hworker => cases hnone.symm.trans hworker
    | syncdone => exact absurd rfl hdone
    | ready => exact absurd rfl hready

/-- The main worker takes over: what it is called with has reached the sync worker's end, so that it
has handled everything up to there. -/
theorem inv_finishTable (h : Inv s) (hpc : s.pc = .loop) (hsync : s.sync = some sync)
    (hstatus : sync.status = .syncdone) (hreceived : Received s x) : Inv (s.finishTable sync x) := by
  unfold System.finishTable
  split
  case isFalse =>
    refine inv_relist h (fun row hrow => .inr ⟨hsync.trans hrow, ?_⟩) (.inr rfl)
    cases hrow
    rw [hstatus]
    nofun
  case isTrue hle =>
    obtain ⟨hok, -, hbeyond⟩ := hreceived
    refine ⟨h.wal.congr rfl rfl rfl, (h.main.commit hok).congr rfl rfl rfl rfl rfl fun y hy => ?_, ?_⟩
    · exact (h.main.commit hok).received y hy
    · have hphase := h.phase
      rw [hsync] at hphase
      have hwaiting : ∀ y, s.pc ≠ .waiting y := by
        rw [hpc]
        nofun
      cases hphase with
      | beginning h | copying h => simp [hstatus] at h
      | catchup | ready => cases hstatus
      | @syncdone lsn hworker _ _ _ honce =>
        have hle : lsn ≤ x := hle
        refine .ready hworker rfl hwaiting (fun i t hi ht hchanges => ?_)
          (honce.congr rfl (fun _ => rfl) fun i t ht _ => ⟨.inr, fun hor => ?_⟩)
        · exact (h.main.handled hok).end_le hi ht hchanges
        · rcases hor with hend | hi
          · by_contra hge
            have hlt := hbeyond i t (Nat.le_of_not_lt hge) ht
            omega
          · exact hi

/-- The handshake: the main worker gives the sync worker the session's position. What it has skipped
ends before that, or is in the copy. -/
theorem inv_handshake (h : Inv s) (hsync : s.sync = some sync) (hstatus : sync.status = .syncwait)
    (hworker : s.worker.any (· ≤ s.position.sessionLsn) = true) (hreceived : Received s x) :
    Inv { s.setTableSyncStatus { sync with status := .catchup } with
      worker := some s.position.sessionLsn
      syncingTables := some { sync with status := .catchup }
      pc := .waiting x } := by
  have hok := hreceived.1
  refine ⟨h.wal.congr rfl rfl rfl, (h.main.commit hok).congr rfl rfl rfl rfl rfl fun y hy => ?_, ?_⟩
  · rcases hy with hy | hy
    · cases hy
    · cases hy
      exact hreceived
  · have hphase := h.phase
    rw [hsync] at hphase
    cases hphase with
    | beginning h => simp [hstatus] at h
    | catchup | syncdone | ready => cases hstatus
    | copying h0 _ _ hslot hfresh =>
      have honce := (h0.resolve_left fun h => nomatch hstatus.symm.trans h.1).2
      refine .catchup rfl (fun row hrow => ?_) hslot.le hslot.cursor_le (fun _ => ?_)
        (fun i t hi ht hchanges => ?_) { honce with }
      · cases hrow
        rfl
      · exact { hslot with }
      · rcases h.main.handled hok with ⟨hzero, -⟩ | hall
        · -- nothing was handled since the sync worker was started
          have hstop : s.worker = some 0 := by
            rw [hzero] at hworker
            obtain ⟨_, hstop, hle⟩ := (any_eq_true _ _).1 hworker
            rw [hstop, Nat.le_zero.1 (of_decide_eq_true hle)]
          exact (hfresh hstop hok hzero i t hi ht).trans (Nat.le_max_left _ _)
        · exact (hall i t hi ht hchanges).trans (Nat.le_max_right _ _)

theorem inv_processTable (h : Inv s) (hpc : s.pc = .loop) (hsync : s.sync = some sync)
    (hreceived : Received s x) : Inv (s.processTable sync x busy) := by
  have hread : sync.status ≠ .ready → Inv { s with syncingTables := some sync } := by
    intro hne
    refine inv_relist h (fun row hrow => .inr ⟨hsync.trans hrow, ?_⟩) (.inr rfl)
    cases hrow
    exact hne
  have hstart : sync.status ≠ .syncdone → sync.status ≠ .ready →
      Inv ({ s with syncingTables := some sync }.startSyncWorker busy) :=
    fun hdone hready => inv_startSyncWorker (hread hready) hsync hdone hready
  unfold System.processTable
  cases hstatus : sync.status with
  | syncwait =>
    show Inv (if _ then _ else _)
    split
    case isTrue hworker => exact inv_handshake h hsync hstatus hworker hreceived
    case isFalse => exact hstart (by rw [hstatus]; nofun) (by rw [hstatus]; nofun)
  | syncdone => exact inv_finishTable h hpc hsync hstatus hreceived
  | ready => exact inv_relist h nofun (.inr rfl)
  | init | started | data | catchup =>
    exact hstart (by rw [hstatus]; nofun) (by rw [hstatus]; nofun)

theorem rereadUnsyncedTables_eq (s : System) : ∃ list pending,
    s.rereadUnsyncedTables = { s with syncingTables := list, syncPending := pending } ∧
      ∀ row, list = some row →
        s.syncingTables = some row ∨ (s.sync = some row ∧ row.status ≠ .ready) := by
  unfold System.rereadUnsyncedTables
  split
  · refine ⟨_, _, rfl, fun row hrow => .inr ?_⟩
    obtain ⟨hsync, hne⟩ := filter_eq_some_iff.1 hrow
    exact ⟨hsync, bne_iff_ne.1 hne⟩
  · exact ⟨s.syncingTables, s.syncPending, rfl, fun row hrow => .inl hrow⟩

/-- **`process_syncing_tables`.** -/
theorem inv_processSyncingTables (h : Inv s) (hpc : s.pc = .processing x) :
    Inv (s.processSyncingTables x busy) := by
  have hreceived := h.main.received x (.inl hpc)
  obtain ⟨list, pending, heq, hlist⟩ := rereadUnsyncedTables_eq s
  unfold System.processSyncingTables
  rw [heq]
  have hinv : Inv { s with syncingTables := list, syncPending := pending, pc := .loop } :=
    inv_relist h hlist (.inl rfl)
  dsimp only
  split
  · exact hinv
  · exact inv_relist h nofun (.inl rfl)
  · next hsync => exact inv_processTable hinv rfl hsync hreceived

theorem inv_wake (h : Inv s) (hpc : s.pc = .waiting x) (hsync : s.sync = some sync)
    (hstatus : sync.status = .syncdone) : Inv { s.finishTable sync x with pc := .loop } := by
  have hcomm : { s.finishTable sync x with pc := .loop } = { s with pc := .loop }.finishTable sync x := by
    unfold System.finishTable
    split <;> rfl
  rw [hcomm]
  have hinv : Inv { s with pc := .loop } := inv_relist h (fun _ hrow => .inl hrow) (.inl rfl)
  exact inv_finishTable hinv rfl hsync hstatus (h.main.received x (.inr hpc))

end Process

/-! ## A new process of the main worker -/

theorem lt_firstFrom_iff (hwal : WalOk s) {lsn : Nat} (hlsn : Boundary s lsn) {i : Nat} {t : Txn}
    (ht : s.wal[i]? = some t) : i < System.firstFrom s.wal lsn ↔ t.endLsn ≤ lsn := by
  obtain ⟨hi, rfl⟩ := List.getElem?_eq_some_iff.1 ht
  have hcommit := s.wal[i].commitLsn_lt
  constructor
  · intro hlt
    have hnot : ¬ lsn ≤ s.wal[i].commitLsn := of_decide_eq_false (not_of_lt_findIdx hlt)
    exact (hlsn.cut _ (getElem_mem hi)).resolve_right hnot
  · intro hle
    by_contra hge
    have hfirst := Nat.le_of_not_lt hge
    have hfound : lsn ≤ s.wal[System.firstFrom s.wal lsn].commitLsn :=
      of_decide_eq_true (findIdx_getElem (w := hfirst.trans_lt hi))
    rcases Nat.eq_or_lt_of_le hfirst with heq | hlt
    · simp only [heq] at hfound
      omega
    · have := hwal.end_le_commit (getElem?_eq_getElem (hfirst.trans_lt hi)) ht hlt
      have := (s.wal[System.firstFrom s.wal lsn]).commitLsn_lt
      omega

theorem firstFrom_le (h : Inv s) : System.firstFrom s.wal s.position.remoteLsn ≤ s.next := by
  by_contra hlt
  have hlt := Nat.lt_of_not_le hlt
  have hlen := hlt.trans_le findIdx_le_length
  have ht := getElem?_eq_getElem hlen
  have hend := (lt_firstFrom_iff h.wal h.main.origin_boundary ht).1 hlt
  have hle := h.main.origin_le s.next _ (le_refl _) ht
  have := (s.wal[s.next]).commitLsn_lt
  omega

/-- **A restart.** What is handled again is not durable, so the table does not have it. -/
theorem inv_restart (h : Inv s)
    (hcareful : ∀ sync, s.sync = some sync → sync.status = .data ∨ sync.status = .syncwait →
      s.worker ≠ some 0) : Inv s.restart := by
  have hle := firstFrom_le h
  have hiff := fun {i : Nat} {t : Txn} => lt_firstFrom_iff (i := i) (t := t) h.wal h.main.origin_boundary
  have hold : ∀ {i : Nat}, i < s.restart.next → i < s.next := fun hi => Nat.lt_of_lt_of_le hi hle
  refine ⟨h.wal.congr rfl rfl rfl, ⟨findIdx_le_length, ?_, fun i t hi ht => ?_, fun _ => ?_, ?_,
    fun _ => .inl ⟨rfl, fun i t hi ht => (hiff ht).1 hi⟩, ?_⟩, ?_⟩
  · exact { h.main.origin_boundary with }
  · refine (h.main.origin_boundary.cut t (mem_of_getElem? ht)).resolve_left fun hend => ?_
    exact Nat.not_le.2 ((hiff ht).2 hend) hi
  · exact boundary_zero _
  · exact fun _ i t _ _ => Nat.zero_le _
  · rintro x (hx | hx) <;> cases hx
  · show Phase s.restart s.sync
    have hskips : Skips s.restart := ⟨nofun, nofun⟩
    have hphase := h.phase
    cases hsync : s.sync with
    | none =>
      rw [hsync] at hphase
      cases hphase with
      | absent hinitially hqueued _ hworker _ hnone =>
        exact .absent hinitially (fun i t hi ht => hqueued i t (hold hi) ht) rfl hworker nofun hnone
    | some sync =>
      rw [hsync] at hphase
      cases hphase with
      | beginning hstatus _ hnone => exact .beginning hstatus hskips hnone
      | copying hstatus hworker _ hslot =>
        refine .copying (hstatus.imp_right fun h => ⟨h.1, { h.2 with }⟩) hworker hskips
          { hslot with } fun hzero => ?_
        exact absurd hzero (hcareful sync hsync (hstatus.imp And.left And.left))
      | catchup hworker _ hle hcursor hslot hskipped honce =>
        refine .catchup hworker nofun hle hcursor (fun h => ?_)
          (fun i t hi ht => hskipped i t (hold hi) ht) { honce with }
        exact { hslot h with }
      | syncdone hworker _ hboundary hwritten honce =>
        refine .syncdone hworker nofun { hboundary with }
          (fun i t hi ht => hwritten i t (hold hi) ht)
          (honce.congr rfl (fun _ => rfl) fun i t ht hchanges => ⟨fun h => h.imp_right hold, ?_⟩)
        rintro (hend | hi)
        · exact .inl hend
        · exact (hwritten i t hi ht hchanges).imp_right (hiff ht).2
      | ready hworker _ _ hwritten honce =>
        refine .ready hworker rfl nofun (fun i t hi ht => hwritten i t (hold hi) ht)
          (honce.congr rfl (fun _ => rfl) fun i t ht hchanges => ⟨hold, fun hi => ?_⟩)
        exact (hiff ht).2 (hwritten i t hi ht hchanges)

/-! ## The sync worker -/

theorem count_filter_range (n : Nat) (p : Nat → Bool) (i : Nat) :
    ((List.range n).filter p).count i = if i < n ∧ p i = true then 1 else 0 := by
  have hmem : i ∈ (List.range n).filter p ↔ i < n ∧ p i = true := by
    rw [mem_filter, mem_range]
  split
  case isTrue hp => exact count_eq_one_of_mem (nodup_range.filter _) (hmem.2 hp)
  case isFalse hp => exact count_eq_zero.2 fun h => hp (hmem.1 h)

theorem once_snapshot {lsn : Nat} (hslot : Slot s lsn) (hnone : ∀ i, s.times i = 0)
    (hwal : s'.wal = s.wal) (hcursor : s'.cursor = s.cursor) (hcopied : s'.copied = s.snapshot lsn)
    (hcaughtUp : s'.caughtUp = s.caughtUp) (happlied : s'.applied = s.applied) :
    Once s' fun i _ => i < s'.cursor := by
  have htimes : ∀ i, s'.times i = (s.snapshot lsn).count i := by
    intro i
    have hzero : s.copied.count i + s.caughtUp.count i + s.applied.count i = 0 := hnone i
    unfold System.times
    rw [hcopied, hcaughtUp, happlied]
    omega
  refine ⟨fun i t ht hchanges hi => ?_, fun i hne => ?_⟩
  · rw [hwal] at ht
    rw [hcursor] at hi
    rw [htimes, System.snapshot, count_filter_range, if_pos]
    refine ⟨(List.getElem?_eq_some_iff.1 ht).1, ?_⟩
    rw [ht]
    exact Bool.and_eq_true_iff.2 ⟨hchanges, decide_eq_true (hslot.before i t ht hi)⟩
  · rw [htimes, System.snapshot, count_filter_range] at hne
    split at hne
    case isTrue hin =>
      obtain ⟨t, ht, hand⟩ := (any_eq_true _ _).1 hin.2
      obtain ⟨hchanges, hend⟩ := Bool.and_eq_true_iff.1 hand
      rw [hwal, hcursor]
      exact ⟨t, ht, hchanges, (hslot.end_le_iff ht).1 (of_decide_eq_true hend)⟩
    case isFalse => exact absurd rfl hne

theorem once_catchUp {t : Txn} (honce : Once s fun i _ => i < s.cursor)
    (ht : s.wal[s.cursor]? = some t) (hwal : s'.wal = s.wal) (hcursor : s'.cursor = s.cursor + 1)
    (hcopied : s'.copied = s.copied) (happlied : s'.applied = s.applied)
    (hcaughtUp : s'.caughtUp = if t.changes then s.caughtUp ++ [s.cursor] else s.caughtUp) :
    Once s' fun i _ => i < s'.cursor := by
  rw [hcursor]
  cases hchanges : t.changes with
  | true =>
    rw [hchanges, if_pos rfl] at hcaughtUp
    refine honce.add hwal ht hchanges (Nat.lt_irrefl _) (fun i => ?_) fun i u _ _ =>
      Nat.lt_succ_iff_lt_or_eq
    have hcount : [s.cursor].count i = if i = s.cursor then 1 else 0 := by
      rw [count_singleton]
      simp only [beq_iff_eq, eq_comm (a := i)]
    unfold System.times
    rw [hcopied, hcaughtUp, happlied, count_append, hcount]
    omega
  | false =>
    rw [hchanges, if_neg nofun] at hcaughtUp
    refine honce.congr hwal (fun i => ?_) fun i u hu hu' => ⟨fun hi => ?_, Nat.lt_succ_of_lt⟩
    · unfold System.times
      rw [hcopied, hcaughtUp, happlied]
    · refine (Nat.lt_succ_iff_lt_or_eq.1 hi).resolve_right fun heq => ?_
      rw [heq, ht, some_inj] at hu
      rw [← hu, hchanges] at hu'
      cases hu'

section

variable (h : Inv s)

include h

theorem Inv.of_phase (hphase : Phase s' s'.sync) (hwal : s'.wal = s.wal := by rfl)
    (hwalEnd : s'.walEnd = s.walEnd := by rfl) (hinitially : s'.initially = s.initially := by rfl)
    (hnext : s'.next = s.next := by rfl) (hposition : s'.position = s.position := by rfl)
    (hfailed : s'.failed = s.failed := by rfl) (hpc : s'.pc = s.pc := by rfl) : Inv s' :=
  ⟨h.wal.congr hwal hwalEnd hinitially,
    h.main.congr hwal hwalEnd hnext hposition hfailed fun x hx => h.main.received x (hpc ▸ hx), hphase⟩

theorem inv_catchUp {lsn stop : Nat} {t : Txn} (hsync : s.sync = some ⟨.catchup, lsn⟩)
    (hworker : s.worker = some stop) (hlt : lsn < stop) (ht : s.wal[s.cursor]? = some t) :
    Inv (s.catchUp stop t) := by
  have hphase := h.phase
  rw [hsync] at hphase
  cases hphase with
  | beginning h | copying h => simp at h
  | catchup hworker' hlist hle _ _ hskipped honce =>
    rw [hworker, some_inj] at hworker'
    subst hworker'
    have hskipped : ∀ (i : ℕ) (u : Txn), i < s.next → s.wal[i]? = some u → u.changes = true →
        u.endLsn ≤ stop := by
      intro i u hi hu hchanges
      have := hskipped i u hi hu hchanges
      rwa [Nat.max_eq_right hlt.le] at this
    have hlen : s.cursor + 1 ≤ s.wal.length := (List.getElem?_eq_some_iff.1 ht).1
    unfold System.catchUp
    dsimp only
    split
    case isTrue hstop =>
      refine h.of_phase ?_
      have honce' : Once { s with
            cursor := s.cursor + 1
            sync := some ⟨.syncdone, t.endLsn⟩
            worker := none
            caughtUp := if t.changes then s.caughtUp ++ [s.cursor] else s.caughtUp }
          fun i _ => i < s.cursor + 1 := once_catchUp honce ht rfl rfl rfl rfl rfl
      have hboundary := (h.wal.boundary ht).2
      refine .syncdone rfl (fun row hrow => .inl (hlist row hrow)) { hboundary with }
        (fun i u hi hu hchanges => .inl ((hskipped i u hi hu hchanges).trans hstop))
        (honce'.congr rfl (fun _ => rfl) fun i u hu hchanges => ?_)
      -- what ends before the last transaction of the stream has been in it
      have hin : u.endLsn ≤ t.endLsn ↔ i < s.cursor + 1 := by
        have hcommit := u.commitLsn_lt
        rcases Nat.lt_trichotomy i s.cursor with hi | rfl | hi
        · have := h.wal.end_le_commit hu ht hi
          have := t.commitLsn_lt
          omega
        · have hu : s.wal[s.cursor]? = some u := hu
          rw [ht, some_inj] at hu
          rw [hu]
          omega
        · have := h.wal.end_le_commit ht hu hi
          omega
      show _ ∨ i < s.next ↔ i < s.cursor + 1
      rw [hin]
      exact or_iff_left_of_imp fun hi => hin.1 ((hskipped i u hi hu hchanges).trans hstop)
    case isFalse =>
      refine h.of_phase ?_
      show Phase _ s.sync
      rw [hsync]
      exact .catchup hworker hlist hle hlen (fun h => absurd hlt (Nat.not_lt.2 h))
        (fun i u hi hu hchanges => (hskipped i u hi hu hchanges).trans (Nat.le_max_right _ _))
        (once_catchUp honce ht rfl rfl rfl rfl rfl)

theorem inv_caughtUp {lsn stop : Nat} (hsync : s.sync = some ⟨.catchup, lsn⟩)
    (hworker : s.worker = some stop) (hle : stop ≤ lsn) :
    Inv { s with sync := some ⟨.syncdone, lsn⟩, worker := none } := by
  refine h.of_phase ?_
  have hphase := h.phase
  rw [hsync] at hphase
  cases hphase with
  | beginning h | copying h => simp at h
  | catchup hworker' hlist _ _ hslot hskipped honce =>
    rw [hworker, some_inj] at hworker'
    subst hworker'
    have hslot := hslot hle
    have hskipped : ∀ (i : ℕ) (u : Txn), i < s.next → s.wal[i]? = some u → u.changes = true →
        u.endLsn ≤ lsn := by
      intro i u hi hu hchanges
      have := hskipped i u hi hu hchanges
      rwa [Nat.max_eq_left hle] at this
    refine .syncdone rfl (fun row hrow => .inl (hlist row hrow))
      { hslot.boundary with }
      (fun i u hi hu hchanges => .inl (hskipped i u hi hu hchanges))
      (honce.congr rfl (fun _ => rfl) fun i u hu hchanges => ?_)
    show _ ∨ i < s.next ↔ i < s.cursor
    rw [hslot.end_le_iff hu]
    exact or_iff_left_of_imp fun hi => (hslot.end_le_iff hu).1 (hskipped i u hi hu hchanges)

/-- **A step of the sync worker.** -/
theorem inv_spockSyncMain (hs : s.spockSyncMain = some s') : Inv s' := by
  cases hworker : s.worker with
  | none =>
    unfold System.spockSyncMain at hs
    rw [hworker] at hs
    cases hs
  | some =>
    cases hsync : s.sync with
    | none =>
      unfold System.spockSyncMain at hs
      rw [hworker, hsync] at hs
      cases hs
    | some sync =>
      obtain ⟨status, _⟩ := sync
      unfold System.spockSyncMain at hs
      rw [hworker, hsync] at hs
      have hphase := h.phase
      rw [hsync] at hphase
      have hsome : s.worker ≠ none := by
        rw [hworker]
        nofun
      cases status with
      | init =>
        obtain rfl := some_inj.1 hs
        refine h.of_phase ?_
        cases hphase with
        | copying h => simp at h
        | beginning _ hskips hnone => exact .beginning (.inr ⟨rfl, nofun⟩) { hskips with } hnone
      | started =>
        obtain rfl := some_inj.1 hs
        refine h.of_phase ?_
        cases hphase with
        | copying h => simp at h
        | beginning _ hskips hnone =>
          -- the slot is created at the end of the WAL
          have hend : ∀ (i : ℕ) (t : Txn), s.wal[i]? = some t → t.endLsn ≤ s.walEnd :=
            fun i t ht => h.wal.le t (mem_of_getElem? ht)
          refine .copying (.inl ⟨rfl, hnone⟩) nofun { hskips with }
            ⟨le_refl _, le_refl _, fun i t ht _ => hend i t ht, fun i t ht hi => ?_⟩
            fun _ _ _ i t _ ht => hend i t ht
          have hlen := (List.getElem?_eq_some_iff.1 ht).1
          exact absurd hlen (Nat.not_lt.2 hi)
      | data =>
        obtain rfl := some_inj.1 hs
        refine h.of_phase ?_
        cases hphase with
        | beginning h => simp at h
        | copying hstatus _ hskips hslot hfresh =>
          have hnone := (hstatus.resolve_right fun h => nomatch h.1).2
          exact .copying (.inr ⟨rfl, once_snapshot hslot hnone rfl rfl rfl rfl rfl⟩) nofun
            { hskips with } { hslot with }
            fun hzero => hfresh (hworker.trans hzero)
      | syncwait => cases hs
      | catchup =>
        dsimp only at hs
        split at hs
        case isTrue hle =>
          obtain rfl := some_inj.1 hs
          exact inv_caughtUp h hsync hworker hle
        case isFalse hlt =>
          obtain ⟨t, ht, rfl⟩ := map_eq_some_iff.1 hs
          exact inv_catchUp h hsync hworker (Nat.lt_of_not_le hlt) ht
      | syncdone =>
        cases hphase with
        | beginning h | copying h => simp at h
        | syncdone hnone => exact absurd hnone hsome
      | ready =>
        cases hphase with
        | beginning h | copying h => simp at h
        | ready hnone => exact absurd hnone hsome

theorem inv_resync (hready : s.sync.any (·.status == .ready) = true) :
    Inv { s with
      sync := some ⟨.init, 0⟩
      syncPending := true
      copied := []
      caughtUp := []
      applied := [] } := by
  refine h.of_phase ?_
  obtain ⟨sync, hsync, hstatus⟩ := (any_eq_true _ _).1 hready
  have hstatus : sync.status = .ready := eq_of_beq hstatus
  have hphase := h.phase
  rw [hsync] at hphase
  cases hphase with
  | beginning h | copying h => simp [hstatus] at h
  | catchup | syncdone => cases hstatus
  | ready _ hlist hpc =>
    refine .beginning (.inl rfl) ⟨fun row hrow => ?_, hpc⟩ fun _ => rfl
    have hrow : s.syncingTables = some row := hrow
    cases hlist.symm.trans hrow

/-! ## Runs -/

/-- **Every careful step keeps the invariant.** -/
theorem inv_step {e : Event} (hcareful : s.Careful e) (hs : s.step e = some s') :
    Inv s' := by
  unfold System.step at hs
  cases e with
  | publish =>
    obtain ⟨⟨hle, hannounces⟩, rfl⟩ := of_guard hs
    exact inv_publish h hle hannounces
  | grow =>
    obtain ⟨hle, rfl⟩ := of_guard hs
    exact inv_grow h hle
  | txn =>
    dsimp only at hs
    split at hs
    · next t _ ht =>
      obtain ⟨hcan, rfl⟩ := of_guard hs
      exact inv_handleTxn h ht hcan (hcareful t ht)
    · cases hs
  | fail staged =>
    dsimp only at hs
    split at hs
    · next hpc _ =>
      obtain rfl := some_inj.1 hs
      exact inv_fail h hpc staged _
    · cases hs
  | idle =>
    obtain ⟨⟨-, hreceived⟩, rfl⟩ := of_guard hs
    exact inv_idle h hreceived hcareful
  | process =>
    dsimp only at hs
    split at hs
    · next hpc =>
      obtain rfl := some_inj.1 hs
      exact inv_processSyncingTables h hpc
    · cases hs
  | wake =>
    dsimp only at hs
    split at hs
    · next hpc hsync =>
      obtain ⟨hstatus, rfl⟩ := of_guard hs
      exact inv_wake h hpc hsync hstatus
    · cases hs
  | giveUp => exact hcareful.elim
  | own =>
    obtain ⟨-, rfl⟩ := of_guard hs
    exact inv_own h hcareful
  | restart =>
    obtain rfl := some_inj.1 hs
    exact inv_restart h hcareful
  | sync => exact inv_spockSyncMain h hs
  | resync =>
    obtain ⟨hready, rfl⟩ := of_guard hs
    exact inv_resync h hready

/-- **So does every run of careful steps.** -/
theorem inv_run {events : List Event} (hcareful : Along System.step System.Careful s events)
    (hrun : run System.step s events = some s') : Inv s' :=
  run_invariant_along (fun _ _ _ hinv hc hs => inv_step hinv hc hs) h hcareful hrun

end

end Spock.Sync
