import Mathlib.Data.List.MinMax
import Mathlib.Data.List.Nodup
import Spock.Lib.Records
import Spock.Conflict.Cluster

/-!
# Spock — convergence under last-update-wins

On a table without delta columns, and with pairwise distinct commit timestamps, a node takes a
transaction exactly when its timestamp is above the stamp of the row. What the node shows is then
the fold of the *records* of its history (`Records.records`): the transactions that were newer
than everything the node had taken before. Two results follow.

* **`lastUpdateWins_converges`** — when every change carries the complete row, a node that has
  taken everything shows the last row of the newest transaction, with its stamp.
* **`column_lastCarrier`** — when changes may leave columns out, each column has the value of the
  last record that carries it. Which transactions are records depends on the order of delivery,
  so nodes can end with different rows; they agree on a column when the newest transaction that
  carries it is a record on every node.
-/

namespace Spock

open List Option

variable {Node V : Type} {natts : Nat}

/-! ## Histories with distinct timestamps -/

/-- The stamp of the version held; `ts₀` while there is none. -/
def stampOf (ts₀ : Int) : Option (Version Node natts V) → Int
  | none => ts₀
  | some v => v.entry.time

def DistinctTimestamps (txns : List (Txn Node natts V)) : Prop :=
  (txns.map Txn.commitTs).Nodup
  deriving Decidable

/-- `t` is the newest of the transactions. -/
def Newest (t : Txn Node natts V) (txns : List (Txn Node natts V)) : Prop :=
  t ∈ txns ∧ ∀ u ∈ txns, u.commitTs ≤ t.commitTs

variable {txns : List (Txn Node natts V)} {t : Txn Node natts V}

variable {u : Txn Node natts V}

theorem DistinctTimestamps.eq_of_commitTs_eq (h : DistinctTimestamps txns) (hu : u ∈ txns)
    (ht : t ∈ txns) (heq : u.commitTs = t.commitTs) : u = t :=
  inj_on_of_nodup_map h hu ht heq

theorem Newest.lt_of_ne (hdist : DistinctTimestamps txns) (ht : Newest t txns) (hu : u ∈ txns)
    (hne : u ≠ t) : u.commitTs < t.commitTs := by
  have hle := ht.2 u hu
  have hts : u.commitTs ≠ t.commitTs := fun heq => hne (hdist.eq_of_commitTs_eq hu ht.1 heq)
  omega

section Histories

variable [DecidableEq Node] {cfg : ConflictConfig Node} {rel : SpockRelation natts V} {ts₀ : Int}
  {c₀ c : Cluster Node natts V}

theorem Cluster.Inv.distinct_applied (h : c₀.Inv cfg rel ts₀ c)
    (hdist : DistinctTimestamps c.txns) (n : Node) :
    (c.applied n).Pairwise fun u t => u.commitTs ≠ t.commitTs := by
  refine (h.node n).once.imp_of_mem fun {u t} hu ht hnot heq => hnot ?_
  rw [hdist.eq_of_commitTs_eq (h.applied n u hu) (h.applied n t ht) heq]
  exact ⟨rfl, rfl⟩

omit [DecidableEq Node] in
theorem stampOf_le (hinit : c₀.Initial ts₀) (n : Node) :
    stampOf ts₀ (c₀.nodes n).version ≤ ts₀ := by
  cases hv : (c₀.nodes n).version with
  | none => exact le_rfl
  | some v => exact hinit.older n v hv

variable {n : Node} {v : Option (Version Node natts V)}

theorem remoteWins_iff_of_ne {origin : Node} {ts : Int} {entry : CommitTimestampEntry Node}
    (hne : entry.time ≠ ts) : remoteWins cfg n origin ts entry ↔ entry.time < ts := by
  simp [remoteWins, hne]

theorem take_eq_offer (hd : rel.hasDeltaColumns = false) (habove : ts₀ < t.commitTs)
    (hown : t.origin = n → stampOf ts₀ v < t.commitTs) (hne : stampOf ts₀ v ≠ t.commitTs) :
    Txn.take cfg rel n v t
      = if stampOf ts₀ v < t.commitTs then some (t.accept rel n v) else v := by
  by_cases hn : t.origin = n
  · rw [Txn.take, if_pos hn, if_pos (hown hn)]
  · rw [Txn.take, if_neg hn]
    cases v with
    | none => rw [Txn.takeRemote, if_pos (show stampOf ts₀ none < t.commitTs from habove)]
    | some v =>
      by_cases hlt : v.entry.time < t.commitTs
      · rw [Txn.takeRemote, if_pos ((remoteWins_iff_of_ne hne).mpr hlt), if_pos]
        exact hlt
      · rw [Txn.takeRemote, if_neg (mt (remoteWins_iff_of_ne hne).mp hlt), if_neg]
        · simp [Txn.lose, hd]
        · exact hlt

/-- **Taking a history is offering it.** Induction on the history: what the node holds after a
step is stamped as before or with the transaction's timestamp, so the side conditions carry over
to the rest. -/
theorem foldl_take_eq_offer (hd : rel.hasDeltaColumns = false) {l : List (Txn Node natts V)}
    (habove : ∀ t ∈ l, ts₀ < t.commitTs) (hown : ∀ t ∈ l, t.origin = n → stampOf ts₀ v < t.commitTs)
    (hne : ∀ t ∈ l, stampOf ts₀ v ≠ t.commitTs)
    (horder : l.Pairwise fun u t => t.origin = n → u.commitTs < t.commitTs)
    (hdist : l.Pairwise fun u t => u.commitTs ≠ t.commitTs) :
    l.foldl (Txn.take cfg rel n) v
      = l.foldl (fun v t => if stampOf ts₀ v < t.commitTs then some (t.accept rel n v) else v) v := by
  induction l generalizing v with
  | nil => rfl
  | cons t _ ih =>
    have htake : Txn.take cfg rel n v t = _ :=
      take_eq_offer hd (habove t (by simp)) (hown t (by simp)) (hne t (by simp))
    rw [foldl_cons, foldl_cons, htake]
    obtain ⟨horder₁, horder₂⟩ := pairwise_cons.mp horder
    obtain ⟨hdist₁, hdist₂⟩ := pairwise_cons.mp hdist
    by_cases hlt : stampOf ts₀ v < t.commitTs
    · rw [if_pos hlt]
      exact ih (fun u hu => habove u (by simp [hu])) horder₁ hdist₁ horder₂ hdist₂
    · rw [if_neg hlt]
      exact ih (fun u hu => habove u (by simp [hu])) (fun u hu => hown u (by simp [hu]))
        (fun u hu => hne u (by simp [hu])) horder₂ hdist₂

/-- The transactions that were newer than all node `n` had taken before. -/
def Cluster.recordsAt (c : Cluster Node natts V) (ts₀ : Int) (n : Node) :
    List (Txn Node natts V) :=
  Records.records Txn.commitTs ts₀ (c.applied n)

/-- **What a node shows is the fold of its records.** -/
theorem Cluster.Inv.version_eq_records (h : c₀.Inv cfg rel ts₀ c) (hinit : c₀.Initial ts₀)
    (hd : rel.hasDeltaColumns = false) (hdist : DistinctTimestamps c.txns) (n : Node) :
    (c.nodes n).version
      = (c.recordsAt ts₀ n).foldl (fun v t => some (t.accept rel n v)) (c₀.nodes n).version := by
  have hstamp := stampOf_le hinit n
  have habove : ∀ t ∈ c.applied n, ts₀ < t.commitTs := fun t ht => h.above t (h.applied n t ht)
  have hbase : ∀ t ∈ c.applied n, stampOf ts₀ (c₀.nodes n).version < t.commitTs :=
    fun t ht => hstamp.trans_lt (habove t ht)
  rw [(h.node n).version, foldl_take_eq_offer hd habove (fun t ht _ => hbase t ht)
      (fun t ht => (hbase t ht).ne) (h.node n).order (h.distinct_applied hdist n),
    Records.foldl_offer_eq Txn.commitTs (stampOf ts₀) (fun v t => some (t.accept rel n v))
      (fun _ _ => rfl), Cluster.recordsAt, Records.records_eq_of_lt hbase habove]

end Histories

/-! ## Complete rows -/

def Txn.Full (t : Txn Node natts V) : Prop := ∀ ch ∈ t.changes, ch.newtup.Complete
  deriving Decidable

def Txn.lastRow (t : Txn Node natts V) : Row natts V := (t.rest.getLastD t.first).newtup.values

section Rows

variable {rel : SpockRelation natts V} (hmap : rel.AllMapped) (hd : rel.hasDeltaColumns = false)
include hmap hd

theorem appliedRow_complete {ch : Change natts V} (hc : ch.newtup.Complete) (row : Row natts V) :
    appliedRow rel row ch = ch.newtup.values := by
  rw [appliedRow_eq hmap, deltaSlot_noDelta hd, slotModifyData_complete hmap hc]

theorem Txn.rowFrom_full (hfull : t.Full) (r : Option (Row natts V)) :
    t.rowFrom rel r = t.lastRow := by
  have hfirst : rowAfter rel r t.first = t.first.newtup.values := by
    cases r with
    | none => rw [rowAfter, computeStoredGenerated_eq hmap, slotFillDefaults_storeData hmap]
    | some => rw [rowAfter, appliedRow_complete hmap hd (hfull t.first (by simp [Txn.changes]))]
  rw [Txn.rowFrom, Txn.lastRow, hfirst]
  have hrest : ∀ ch ∈ t.rest, ch.newtup.Complete := fun ch hch =>
    hfull ch (by simp [Txn.changes, hch])
  -- the last change decides: peel it off the list
  rcases eq_nil_or_concat t.rest with hnil | ⟨chs, ch, hconcat⟩
  · rw [hnil]
    rfl
  · have hlast : ch.newtup.Complete := hrest ch (by simp [hconcat])
    rw [hconcat, concat_eq_append, foldl_concat, appliedRow_complete hmap hd hlast, getLastD_concat]

end Rows

section Converge

variable [DecidableEq Node] {cfg : ConflictConfig Node} (hcfg : cfg.LastUpdateWins)
  {rel : SpockRelation natts V} (hmap : rel.AllMapped) (hd : rel.hasDeltaColumns = false)

theorem SpockRelation.deltaExact_of_noDelta (hmap : rel.AllMapped)
    (hd : rel.hasDeltaColumns = false) : rel.DeltaExact := by
  intro c f hf
  rw [SpockRelation.deltaApplyFunctions_eq_none hmap hd c] at hf
  cases hf

omit [DecidableEq Node] in
theorem Event.sendsDeltas_of_noDelta (hmap : rel.AllMapped) (hd : rel.hasDeltaColumns = false)
    (e : Event Node natts V) : e.SendsDeltas rel := by
  cases e with
  | deliver => trivial
  | commit =>
    intro stmt _
    cases stmt with
    | insert => trivial
    | update =>
      intro c hc
      rw [SpockRelation.deltaApplyFunctions_eq_none hmap hd c] at hc
      cases hc

include hcfg hmap hd

theorem Cluster.inv_run_noDelta {ts₀ : Int} {c₀ c : Cluster Node natts V}
    (hinit : c₀.Initial ts₀) {es : List (Event Node natts V)}
    (hrun : Runs.run (Cluster.step cfg rel) c₀ es = some c) : c₀.Inv cfg rel ts₀ c :=
  Cluster.inv_run hcfg hmap (SpockRelation.deltaExact_of_noDelta hmap hd) hinit
    (fun e _ => e.sendsDeltas_of_noDelta hmap hd) hrun

/-- **Last-update-wins converges on complete rows.** Whatever the nodes, the transactions and the
interleaving, a node that has taken every transaction shows the last row of the newest one, with
its timestamp and origin. -/
theorem lastUpdateWins_converges {ts₀ : Int} {c₀ c : Cluster Node natts V}
    (hinit : c₀.Initial ts₀) {es : List (Event Node natts V)}
    (hrun : Runs.run (Cluster.step cfg rel) c₀ es = some c)
    (hfull : ∀ t ∈ c.txns, t.Full) (hdist : DistinctTimestamps c.txns)
    {n : Node} (hseen : c.SeenAll n) {t : Txn Node natts V} (ht : Newest t c.txns) :
    (c.nodes n).version = some ⟨t.lastRow, t.entryAt n⟩ := by
  have hinv := Cluster.inv_run_noDelta hcfg hmap hd hinit hrun
  have hlast : (c.recordsAt ts₀ n).getLast? = some t :=
    Records.getLast?_records (hinv.mem_of_seenAll hseen ht.1) (hinv.above t ht.1)
      (fun u hu hne => ht.lt_of_ne hdist (hinv.applied n u hu) hne)
  obtain ⟨_, holder⟩ := getLast?_eq_some_iff.mp hlast
  rw [hinv.version_eq_records hinit hd hdist n, holder, foldl_concat, Txn.accept,
    Txn.rowFrom_full hmap hd (hfull t ht.1)]

end Converge

/-- Two nodes insert the key at times 10 and 20 and exchange the rows. -/
def twoInserts : List (Event (Fin 2) 1 Int) :=
  [.commit 0 10 (.insert fun _ => some 1) [], .commit 1 20 (.insert fun _ => some 2) [],
    .deliver 0 30 1, .deliver 1 30 0]

theorem lastUpdateWins_converges_twoInserts :
    ∃ c, Runs.run (Cluster.step (numberedNodes 2) (intTable 1 fun _ => false)) (freshCluster none)
        twoInserts = some c ∧
      (c.nodes 0).version = some ⟨fun _ => some 2, ⟨20, some 1⟩⟩ := by
  refine ⟨_, rfl, ?_⟩
  exact lastUpdateWins_converges (numberedNodes_lastUpdateWins 2) (intTable_allMapped 1 _) rfl
    (freshCluster_initial none)
    (rfl : Runs.run (Cluster.step _ (intTable 1 fun _ => false)) _ twoInserts = _)
    (by decide) (by decide) (by decide)
    (t := ⟨1, 20, .insert (spockReadTuple (spockWriteTuple (fun _ => some 2) fun _ => false)), []⟩)
    ⟨List.Mem.tail _ (List.Mem.head _), by decide⟩

/-! ## Columns left out

A change that leaves a column out is merged onto whatever row the node has. -/

/-- What a change carries for column `a`. -/
def Change.carried (ch : Change natts V) (a : Fin natts) : Option (Option V) :=
  if ch.newtup.changed a then some (ch.newtup.values a) else none

/-- What a transaction carries for column `a`: its last change that has the column. -/
def Txn.carried (t : Txn Node natts V) (a : Fin natts) : Option (Option V) :=
  t.changes.reverse.findSome? fun ch => ch.carried a

/-- What the last transaction of a list that carries column `a` carries for it. -/
def lastCarried (l : List (Txn Node natts V)) (a : Fin natts) : Option (Option V) :=
  l.reverse.findSome? fun t => t.carried a

/-- `t` is the newest transaction that carries column `a`. -/
def NewestCarrier (t : Txn Node natts V) (a : Fin natts) (txns : List (Txn Node natts V)) : Prop :=
  t ∈ txns ∧ (t.carried a).isSome ∧ ∀ u ∈ txns, (u.carried a).isSome → u.commitTs ≤ t.commitTs

theorem exists_newestCarrier {a : Fin natts} (ht : t ∈ txns) (hcarries : (t.carried a).isSome) :
    ∃ m, NewestCarrier m a txns := by
  have hmem : ∀ u, u ∈ txns.filter (fun u => (u.carried a).isSome) ↔
      u ∈ txns ∧ (u.carried a).isSome := fun u => mem_filter
  cases hmax : (txns.filter fun u => (u.carried a).isSome).argmax Txn.commitTs with
  | none =>
    have hnil := argmax_eq_none.mp hmax
    exact absurd ((hmem t).mpr ⟨ht, hcarries⟩) (by rw [hnil]; exact not_mem_nil)
  | some m =>
    obtain ⟨hm, hmc⟩ := (hmem m).mp (argmax_mem hmax)
    exact ⟨m, hm, hmc, fun u hu huc => le_of_mem_argmax ((hmem u).mpr ⟨hu, huc⟩) hmax⟩

section Columns

variable {rel : SpockRelation natts V} (hmap : rel.AllMapped) (hd : rel.hasDeltaColumns = false)
include hmap hd

theorem appliedRow_column (row : Row natts V) (ch : Change natts V) (a : Fin natts) :
    appliedRow rel row ch a = (ch.carried a).getD (row a) := by
  rw [appliedRow_eq hmap, deltaSlot_noDelta hd]
  cases hch : ch.newtup.changed a <;> simp [slotModifyData, hmap.mapped a, Change.carried, hch]

theorem Txn.rowFrom_column (t : Txn Node natts V) (row : Row natts V) (a : Fin natts) :
    t.rowFrom rel (some row) a = (t.carried a).getD (row a) := by
  show t.changes.foldl (appliedRow rel) row a = _
  exact Records.foldl_field_eq (fun r : Row natts V => r a) (fun ch => ch.carried a)
    (appliedRow rel) (fun r ch => appliedRow_column hmap hd r ch a) row t.changes

variable [DecidableEq Node] {cfg : ConflictConfig Node} {ts₀ : Int} {c₀ c : Cluster Node natts V}

/-- **Each column is what the last record that carries it left.** -/
theorem Cluster.Inv.column_eq (hinv : c₀.Inv cfg rel ts₀ c) (hinit : c₀.Initial ts₀)
    (hdist : DistinctTimestamps c.txns) {n : Node} {v₀ : Version Node natts V}
    (hv₀ : (c₀.nodes n).version = some v₀) :
    ∃ v, (c.nodes n).version = some v ∧
      ∀ a, v.row a = (lastCarried (c.recordsAt ts₀ n) a).getD (v₀.row a) := by
  have hsome : ∀ (l : List (Txn Node natts V)) (v : Version Node natts V),
      l.foldl (fun w t => some (t.accept rel n w)) (some v)
        = some (l.foldl (fun w t => t.accept rel n (some w)) v) := by
    intro l
    induction l with
    | nil => exact fun _ => rfl
    | cons t _ ih => exact fun v => ih (t.accept rel n (some v))
  refine ⟨_, (hinv.version_eq_records hinit hd hdist n).trans (by rw [hv₀, hsome]), fun a => ?_⟩
  exact Records.foldl_field_eq (fun w : Version Node natts V => w.row a) (fun t => t.carried a)
    (fun w t => t.accept rel n (some w)) (fun w t => t.rowFrom_column hmap hd w.row a) v₀
    (c.recordsAt ts₀ n)

end Columns

section Agreement

variable [DecidableEq Node] {cfg : ConflictConfig Node} (hcfg : cfg.LastUpdateWins)
  {rel : SpockRelation natts V} (hmap : rel.AllMapped) (hd : rel.hasDeltaColumns = false)
include hcfg hmap hd

/-- **Columns under partial updates.** From equal rows, every node that has taken everything holds
in each column what the last transaction that was newest on its arrival there and carries the
column left in it. On a column whose newest carrier was, on every node, newer than all taken
before it, the nodes agree. -/
theorem column_lastCarrier {ts₀ : Int} {c₀ c : Cluster Node natts V} (hinit : c₀.Initial ts₀)
    {row₀ : Row natts V} (hrow₀ : ∀ n, (c₀.nodes n).version.map (·.row) = some row₀)
    {es : List (Event Node natts V)} (hrun : Runs.run (Cluster.step cfg rel) c₀ es = some c)
    (hdist : DistinctTimestamps c.txns) (hseen : ∀ n, c.SeenAll n) :
    (∀ n, ∃ v, (c.nodes n).version = some v ∧
      ∀ a, v.row a = (lastCarried (c.recordsAt ts₀ n) a).getD (row₀ a)) ∧
    ∀ a, (∀ n t, NewestCarrier t a c.txns → ∀ pre post, c.applied n = pre ++ t :: post →
        ∀ u ∈ pre, u.commitTs < t.commitTs) →
      ∀ n m, (c.nodes n).version.map (·.row a) = (c.nodes m).version.map (·.row a) := by
  have hinv := Cluster.inv_run_noDelta hcfg hmap hd hinit hrun
  have hcolumn : ∀ n, ∃ v, (c.nodes n).version = some v ∧
      ∀ a, v.row a = (lastCarried (c.recordsAt ts₀ n) a).getD (row₀ a) := by
    intro n
    obtain ⟨_, hv₀, rfl⟩ := map_eq_some_iff.mp (hrow₀ n)
    exact hinv.column_eq hmap hd hinit hdist hv₀
  refine ⟨hcolumn, fun a hfirst => ?_⟩
  by_cases hcarrier : ∃ t, NewestCarrier t a c.txns
  · -- the newest carrier is a record everywhere, and the last record that carries the column
    obtain ⟨t, ht⟩ := hcarrier
    obtain ⟨x, hx⟩ := isSome_iff_exists.mp ht.2.1
    have hlast : ∀ n, lastCarried (c.recordsAt ts₀ n) a = some x := by
      intro n
      obtain ⟨pre, post, happ⟩ := append_of_mem (hinv.mem_of_seenAll (hseen n) ht.1)
      refine Records.findSome?_reverse_eq_of_sorted (Records.records_sorted _ _ _) ?_ hx
        (fun u hu => ht.2.2 u (hinv.applied n u (Records.mem_of_mem_records hu)))
      exact Records.mem_records_iff.mpr
        ⟨pre, post, happ, hinv.above t ht.1, hfirst n t ht pre post happ⟩
    intro n m
    obtain ⟨v, hv, hva⟩ := hcolumn n
    obtain ⟨w, hw, hwa⟩ := hcolumn m
    rw [hv, hw, map_some, map_some, hva, hwa, hlast n, hlast m]
  · -- nobody carries the column
    have hnone : ∀ n, lastCarried (c.recordsAt ts₀ n) a = none := by
      intro n
      refine findSome?_eq_none_iff.mpr fun t ht => ?_
      have hmem := hinv.applied n t (Records.mem_of_mem_records (mem_reverse.mp ht))
      by_contra hne
      exact hcarrier (exists_newestCarrier hmem (isSome_iff_ne_none.mpr hne))
    intro n m
    obtain ⟨v, hv, hva⟩ := hcolumn n
    obtain ⟨w, hw, hwa⟩ := hcolumn m
    rw [hv, hw, map_some, map_some, hva, hwa, hnone n, hnone m]

end Agreement

/-- From the row (0, 0): node 0 updates the first column at time 10 and leaves the second, TOASTed
one out; node 1 sets the second column at time 5. -/
def partialUpdates : List (Event (Fin 2) 2 Int) :=
  [.commit 0 10 (.update (fun _ => some 1) (fun a => a == 1) none) [],
    .commit 1 5 (.update (fun a => if a = 0 then some 0 else some 2) (fun _ => false) none) [],
    .deliver 0 30 1, .deliver 1 30 0]

/-- Node 0 never sees the new second column, node 1 keeps it under the newer update. -/
theorem partialUpdates_diverge :
    (freshCluster (some fun _ => some 0) : Cluster (Fin 2) 2 Int).Initial 1 ∧
    ∃ c, Runs.run (Cluster.step (numberedNodes 2) (intTable 2 fun _ => false))
        (freshCluster (some fun _ => some 0)) partialUpdates = some c ∧
      DistinctTimestamps c.txns ∧ (∀ n, c.SeenAll n) ∧
      (c.nodes 0).version.map (fun v => v.row 1) = some (some 0) ∧
      (c.nodes 1).version.map (fun v => v.row 1) = some (some 2) :=
  ⟨freshCluster_initial _, _, rfl, by decide, by decide, by decide, by decide⟩

theorem column_lastCarrier_partialUpdates :
    ∃ c, Runs.run (Cluster.step (numberedNodes 2) (intTable 2 fun _ => false))
        (freshCluster (some fun _ => some 0)) partialUpdates = some c ∧
      ∀ n, ∃ v, (c.nodes n).version = some v ∧
        ∀ a, v.row a = (lastCarried (c.recordsAt 1 n) a).getD (some 0) := by
  refine ⟨_, rfl, ?_⟩
  exact (column_lastCarrier (numberedNodes_lastUpdateWins 2) (intTable_allMapped 2 _) rfl
    (freshCluster_initial (some fun _ => some 0)) (fun n => by rw [freshCluster_version]; rfl)
    (rfl : Runs.run (Cluster.step _ (intTable 2 fun _ => false)) _ partialUpdates = _)
    (by decide) (by decide)).1

end Spock
