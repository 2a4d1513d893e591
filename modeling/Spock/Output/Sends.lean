import Spock.Output.Plugin

/-!
# Spock — what each callback sends

One specification for each callback of the output plugin: the messages it appends, and the static
variables it leaves as they are. Those for rows keep a relation (`Sends`) between the states before
and after, also where they raise; the others are short enough to say where they end.

* **`keeps_pgDecodeChange`**, **`keeps_pgDecodeTruncate`** — only rows are sent;
* **`ends_pgDecodeBeginTxn`**, **`ends_pgDecodeCommitTxn`** — the head and the end of a transaction,
  or nothing if it is skipped;
* **`ends_syncEvent`**, **`ends_otherMessage`** — a sync event is sent in every state.
-/

namespace Spock.Output

open Protocol Repset Outcome List

/-- `R`, `I`, `U`, `D` and `T`. -/
def isRow : Message → Bool
  | .relation .. | .insert .. | .update .. | .delete .. | .truncate .. => true
  | _ => false

def isRelation : Message → Bool
  | .relation .. => true
  | _ => false

/-- The relation and the column list of the tuples in a message. -/
def tupleOf : Message → Option (Relation × Option (List Nat))
  | .insert rel _ attList | .update rel _ _ attList | .delete rel _ attList => some (rel, attList)
  | _ => none

variable {x : Callback Unit} {s : Plugin} {c : Connection}

/-- A statement under a condition keeps what the statement keeps. -/
theorem keeps_unlessThat {r : Plugin → Plugin → Prop} [Std.Refl r] {b : Bool} (hx : Keeps r x) :
    Keeps r (unlessThat b x) := by
  cases b
  · exact hx
  · exact keeps_pure ()

theorem maintains_unlessThat {I J : Plugin → Prop} {b : Bool} (hx : Maintains I J x) :
    Maintains I J (unlessThat b x) := by
  cases b
  · exact hx
  · exact maintains_pure ()

/-! ## Rows -/

/-- Only messages of some kind are sent, and what says where we are does not change. -/
structure Sends (kind : Message → Bool) (s s' : Plugin) : Prop where
  sent : ∃ out, s'.sent = s.sent ++ out ∧ ∀ m ∈ out, kind m = true
  startup : s'.startupMessageSent = s.startupMessageSent
  skip : s'.slotGroupSkipXact = s.slotGroupSkipXact
  txn : s'.txn = s.txn
  catalog : s'.catalog = s.catalog

variable {kind : Message → Bool}

/-- Whatever the caches hold, nothing was sent. -/
theorem Sends.of_sent {s' : Plugin} (hsent : s'.sent = s.sent)
    (hstartup : s'.startupMessageSent = s.startupMessageSent)
    (hskip : s'.slotGroupSkipXact = s.slotGroupSkipXact) (htxn : s'.txn = s.txn)
    (hcatalog : s'.catalog = s.catalog) : Sends kind s s' :=
  ⟨⟨[], by rw [hsent, append_nil], nofun⟩, hstartup, hskip, htxn, hcatalog⟩

instance : Std.Refl (Sends kind) := ⟨fun _ => .of_sent rfl rfl rfl rfl rfl⟩

instance : IsTrans Plugin (Sends kind) where
  trans s₁ s₂ s₃ h₁ h₂ := by
    obtain ⟨out₁, hsent₁, hkind₁⟩ := h₁.sent
    obtain ⟨out₂, hsent₂, hkind₂⟩ := h₂.sent
    refine ⟨⟨out₁ ++ out₂, by rw [hsent₂, hsent₁, List.append_assoc], fun m hm => ?_⟩,
      h₂.startup.trans h₁.startup, h₂.skip.trans h₁.skip, h₂.txn.trans h₁.txn,
      h₂.catalog.trans h₁.catalog⟩
    rcases List.mem_append.1 hm with hm | hm
    · exact hkind₁ m hm
    · exact hkind₂ m hm

section Kinds

variable (c : Connection)

/-- A message is sent unless its writer raises. -/
theorem keeps_emit {m : Message} (hm : kind m = true) : Keeps (Sends kind) (emit c m) := by
  unfold emit
  cases c.publisher.write m with
  | error e => exact keeps_throw e
  | ok =>
    refine keeps_modify fun s => ⟨⟨[m], rfl, fun m' hm' => ?_⟩, rfl, rfl, rfl, rfl⟩
    rw [mem_singleton.1 hm']
    exact hm

/-- Reading the catalogs sends nothing, and may raise. -/
theorem keeps_tableReplicationInfo (rel : Relation) :
    Keeps (Sends kind) (tableReplicationInfo c rel) := by
  refine keeps_bind keeps_get fun s => keeps_bind (keeps_modify fun _ => ?_) fun _ => ?_
  · exact .of_sent rfl rfl rfl rfl rfl
  · split
    · exact keeps_pure _
    · exact keeps_throw _

/-- A set that is updated is noted, and one of ours that is deleted raises. -/
theorem keeps_replicationSetChanged (change : Change) :
    Keeps (Sends kind) (replicationSetChanged c change) := by
  unfold replicationSetChanged
  split
  · exact keeps_modify fun _ => .of_sent rfl rfl rfl rfl rfl
  · refine keeps_bind keeps_get fun s => ?_
    split
    · exact keeps_throw _
    · exact keeps_pure ()
  · exact keeps_pure ()
  · exact keeps_pure ()

/-- The filter reads the caches and fills them. -/
theorem keeps_changeFilter (rel : Relation) (change : Change) :
    Keeps (Sends kind) (changeFilter c rel change) := by
  refine keeps_bind keeps_get fun s => ?_
  split
  · exact keeps_pure _
  · refine keeps_ite (keeps_pure _) (keeps_ite ?_ ?_)
    · exact keeps_bind (keeps_replicationSetChanged c change) fun _ => keeps_pure none
    · exact keeps_bind (keeps_tableReplicationInfo c rel) fun _ => keeps_pure _

theorem keeps_setRelMeta (relid : UInt32) (entry : RelMetaCacheEntry) :
    Keeps (Sends kind) (modify (·.setRelMeta relid entry) : Callback Unit) :=
  keeps_modify fun _ => .of_sent rfl rfl rfl rfl rfl

/-- The relation is described first, if that has not been done since it last changed. -/
theorem keeps_maybeSendSchema (hkind : ∀ rel attList, kind (.relation rel attList) = true)
    (rel : Relation) : Keeps (Sends kind) (maybeSendSchema c rel) :=
  keeps_bind keeps_get fun _ => keeps_bind (keeps_setRelMeta _ _) fun _ =>
    keeps_unlessThat (keeps_bind (keeps_tableReplicationInfo c rel) fun _ =>
      keeps_bind (keeps_emit c (hkind rel _)) fun _ => keeps_setRelMeta _ _)

theorem keeps_sendChange (rel : Relation) (attList : Option (List Nat)) (change : Change) :
    Keeps (Sends isRow) (sendChange c rel attList change) := by
  unfold sendChange
  split
  · exact keeps_emit c rfl
  · exact keeps_emit c rfl
  · exact keeps_emit c rfl
  · exact keeps_pure ()

/-- A change sends at most the description of its relation and itself, -/
theorem keeps_pgDecodeChange (relid : UInt32) (change : Change) :
    Keeps (Sends isRow) (pgDecodeChange c relid change) := by
  refine keeps_bind keeps_get fun s => keeps_unlessThat ?_
  refine keeps_bind (keeps_changeFilter c _ change) fun filtered => ?_
  cases filtered with
  | none => exact keeps_pure ()
  | some attList =>
    exact keeps_bind (keeps_maybeSendSchema c (fun _ _ => rfl) _) fun _ =>
      keeps_sendChange c _ attList change

theorem keeps_tableReplicationSets (relid : UInt32) :
    Keeps (Sends kind) (tableReplicationSets c relid) := by
  refine keeps_bind keeps_get fun s => ?_
  split
  · exact keeps_pure _
  · exact keeps_throw _

/-- and the loop over the truncated relations their descriptions, -/
theorem keeps_truncateLoop (relids : List UInt32) : Keeps (Sends isRow) (truncateLoop c relids) := by
  induction relids with
  | nil => exact keeps_pure []
  | cons relid _ ih =>
    refine keeps_bind (keeps_tableReplicationSets c relid) fun repsets => keeps_ite ?_ ih
    exact keeps_bind keeps_get fun _ => keeps_bind (keeps_maybeSendSchema c (fun _ _ => rfl) _) fun _ =>
      keeps_bind ih fun _ => keeps_pure _

/-- which the TRUNCATE follows if any of them is replicated. -/
theorem keeps_pgDecodeTruncate (relids : List UInt32) (cascade restartSeqs : Bool) :
    Keeps (Sends isRow) (pgDecodeTruncate c relids cascade restartSeqs) :=
  keeps_bind keeps_get fun _ => keeps_unlessThat (keeps_bind (keeps_truncateLoop c relids) fun _ =>
    keeps_unlessThat (keeps_emit c rfl))

end Kinds

/-! ## Lookups -/

/-- The lookup of a relation in `RepSetTableHash`. -/
def Plugin.lookup (c : Connection) (s : Plugin) (rel : Relation) :
    Except ErrorData TableRepInfo × RepSetTableHash :=
  getTableReplicationInfo c.uninit s.repSetTableHash (s.catalog.repsetTables rel.relid) c.localNodeId
    rel s.replicationSets

/-- The hash table is a memo of `combination`, which the catalogs determine. -/
theorem lookup_eq (c : Connection) (s : Plugin) (relid : UInt32) :
    s.lookup c (s.catalog.relation relid) =
      Memo.lookup c.uninit s.repSetTableHash relid (combination (s.catalog.relation relid).desc
        (s.catalog.repsetTables relid) s.replicationSets) := by
  rw [Plugin.lookup, getTableReplicationInfo, Catalog.relation_relid, fillEntry_eq_combination]

/-- A lookup fills the hash table also if it raises. -/
theorem ends_tableReplicationInfo (c : Connection) (rel : Relation)
    {Q : TableRepInfo → Plugin → Prop} {R : ErrorData → Plugin → Prop} :
    Ends (tableReplicationInfo c rel) s Q R ↔
      (∀ info, (s.lookup c rel).1 = .ok info → Q info { s with repSetTableHash := (s.lookup c rel).2 }) ∧
      ∀ e, (s.lookup c rel).1 = .error e → R e { s with repSetTableHash := (s.lookup c rel).2 } := by
  unfold tableReplicationInfo Plugin.lookup
  simp only [ends_bind, ends_get, ends_modify]
  cases (getTableReplicationInfo c.uninit s.repSetTableHash (s.catalog.repsetTables rel.relid)
    c.localNodeId rel s.replicationSets).1 with
  | ok info => simp only [ends_pure, Except.ok.injEq, forall_eq', reduceCtorEq, false_implies,
      implies_true, and_true]
  | error e => simp only [ends_throw, Except.error.injEq, forall_eq', reduceCtorEq, false_implies,
      implies_true, true_and]

/-! ## The other callbacks -/

/-- The startup message, if it is still to be sent. -/
def Plugin.startupMessages (c : Connection) (s : Plugin) : List Message :=
  if s.startupMessageSent then [] else [.startup c.startupParams]

section Writers

variable (c : Connection)

variable {Q : Unit → Plugin → Prop} {R : ErrorData → Plugin → Prop}

variable {m : Message} {pref : CString} {message : List UInt8}

/-- A message whose writer does not raise. -/
theorem ends_emit {bytes : List UInt8} (h : c.publisher.write m = .ok bytes) :
    Ends (emit c m) s Q R ↔ Q () { s with sent := s.sent ++ [m] } := by
  unfold emit
  rw [h]
  exact ends_modify _

/-- Whether the writer raises is no matter here. -/
theorem ends_emit_of (hQ : Q () { s with sent := s.sent ++ [m] }) (hR : ∀ e, R e s) :
    Ends (emit c m) s Q R := by
  unfold emit
  cases c.publisher.write m with
  | ok => exact hQ
  | error e => exact hR e

/-- The startup message is sent once. -/
theorem ends_sendStartup {b : Bool} (hb : b = s.startupMessageSent) :
    Ends (unlessThat b (sendStartupMessage c)) s Q R ↔
      Q () { s with startupMessageSent := true, sent := s.sent ++ s.startupMessages c } := by
  subst hb
  obtain ⟨_, _, startup⟩ := s
  cases startup with
  | false => rfl
  | true =>
    unfold unlessThat Plugin.startupMessages
    simp only [if_true, append_nil, ends_pure]

/-- A sync event is sent whatever the state. -/
theorem ends_syncEvent (h : isSyncEvent pref message = true) (xid : UInt32) (lsn : UInt64)
    (transactional : Bool) :
    Ends (pgDecodeMessage c xid lsn transactional pref message) s Q R ↔
      Q () { s with
        startupMessageSent := true
        sent := s.sent ++ s.startupMessages c ++ [.message xid lsn transactional pref message] } := by
  simp only [isSyncEvent, Bool.and_eq_true, beq_iff_eq, decide_eq_true_eq] at h
  obtain ⟨⟨hpref, hlength⟩, hmtype⟩ := h
  unfold pgDecodeMessage
  rw [if_neg (not_not_intro hpref), if_neg (Nat.not_lt.2 hlength), hmtype]
  simp only [ends_bind, ends_get, ends_sendStartup c rfl]
  exact ends_emit c rfl

/-- Any other message at most switches the repair mode. -/
theorem ends_otherMessage (h : isSyncEvent pref message = false) (xid : UInt32) (lsn : UInt64)
    (transactional : Bool) (s : Plugin) :
    Ends (pgDecodeMessage c xid lsn transactional pref message) s
      (fun _ s' => ∃ b, s' = { s with repairMode := b }) fun _ _ => False := by
  have hsame : ∃ b, s = { s with repairMode := b } := ⟨s.repairMode, rfl⟩
  have hset : ∀ b b', Ends (unlessThat b (modify fun s => { s with repairMode := b' })) s
      (fun _ s' => ∃ b, s' = { s with repairMode := b }) fun _ _ => False := by
    intro b b'
    cases b
    · exact ⟨b', rfl⟩
    · exact hsame
  unfold pgDecodeMessage
  refine ends_ite.2 ⟨fun _ => hsame, fun hpref => ends_ite.2 ⟨fun _ => hsame, fun hlength => ?_⟩⟩
  have hne : mtype message ≠ 3 := by
    intro hmtype
    have hevent : isSyncEvent pref message = true := by
      simp only [isSyncEvent, Bool.and_eq_true, beq_iff_eq, decide_eq_true_eq]
      exact ⟨⟨not_not.1 hpref, Nat.not_lt.1 hlength⟩, hmtype⟩
    cases hevent.symm.trans h
  generalize mtype message = n at hne ⊢
  match n, hne with
  | 0, _ => exact hsame
  | 1, _ => exact hset _ true
  | 2, _ => exact hset _ false
  | 3, hne => exact absurd rfl hne
  | _ + 4, _ => exact hsame

/-- The head of a transaction: BEGIN, and its origin and order if we forward origins. -/
def opening (txn : Txn) (ts : UInt64) : List Message :=
  .begin txn.finalLsn txn.commitTime.toUInt64 txn.xid ::
    if c.forwardChangesetOrigins then [originMessage c txn, .commitOrder ts] else []

/-- The commit timestamps of the group and the last one we have seen are all that moves. -/
theorem moveCommitTs_frame (s : Plugin) (txn : Txn) :
    s.moveCommitTs txn =
      { s with
        slotGroup := (s.moveCommitTs txn).slotGroup
        slotGroupLastCommitTs := (s.moveCommitTs txn).slotGroupLastCommitTs } := by
  unfold Plugin.moveCommitTs
  split
  · rfl
  · split <;> rfl

theorem moveCommitTs_repairMode (s : Plugin) (txn : Txn) :
    Plugin.moveCommitTs { s with repairMode := false } txn =
      { s.moveCommitTs txn with repairMode := false } := by
  obtain ⟨_, _, _, group, _⟩ := s
  cases group with
  | none => rfl
  | some =>
    unfold Plugin.moveCommitTs
    dsimp only
    split <;> rfl

/-- A transaction that another member works on is skipped, and any other opened. -/
theorem ends_pgDecodeBeginTxn (txn : Txn) (s : Plugin) :
    Ends (pgDecodeBeginTxn c txn) s
      (fun _ s' => s'.txn = s.txn ∧
        s'.slotGroupLastCommitTs = (s.moveCommitTs txn).slotGroupLastCommitTs ∧
        if s.isTaken txn then
          s'.slotGroup = (s.moveCommitTs txn).slotGroup ∧ s'.sent = s.sent ∧
            s'.startupMessageSent = s.startupMessageSent ∧ s'.slotGroupSkipXact = true
        else
          s'.slotGroup = ((s.moveCommitTs txn).claim txn).slotGroup ∧
            s'.sent = s.sent ++ s.startupMessages c ++
              opening c txn (s.moveCommitTs txn).slotGroupLastCommitTs.toUInt64 ∧
            s'.startupMessageSent = true ∧ s'.slotGroupSkipXact = s.slotGroupSkipXact)
      fun _ _ => False := by
  have htaken : Plugin.isTaken { s with repairMode := false } txn = s.isTaken txn := rfl
  unfold pgDecodeBeginTxn
  simp only [ends_bind, ends_modify, ends_get, moveCommitTs_repairMode, htaken]
  rw [moveCommitTs_frame s]
  cases s.isTaken txn with
  | true => exact ⟨rfl, rfl, rfl, rfl, rfl, rfl⟩
  | false =>
    have horigin : ∃ bytes, c.publisher.write (originMessage c txn) = .ok bytes := by
      unfold originMessage
      split <;> exact ⟨_, rfl⟩
    obtain ⟨_, horigin⟩ := horigin
    simp only [Bool.false_eq_true, if_false, ends_bind, ends_modify]
    refine (ends_sendStartup c (by rfl)).2 ?_
    refine (ends_emit c rfl).2 ?_
    cases hforward : c.forwardChangesetOrigins with
    | false =>
      refine ⟨rfl, rfl, rfl, ?_, rfl, rfl⟩
      simp only [opening, hforward, Bool.false_eq_true, if_false]
      rfl
    | true =>
      refine (ends_bind _ _).2 ((ends_emit c horigin).2 ?_)
      refine (ends_bind _ _).2 (ends_get.2 ?_)
      refine (ends_emit c (by rfl)).2 ⟨rfl, rfl, rfl, ?_, rfl, rfl⟩
      simp only [opening, hforward, if_true, Plugin.claim, append_assoc, cons_append, nil_append]
      rfl

/-- A skipped transaction ends without a message. -/
theorem ends_pgDecodeCommitTxn (txn : Txn) (commitLsn : UInt64) (s : Plugin) :
    Ends (pgDecodeCommitTxn c txn commitLsn) s
      (fun _ s' => s'.startupMessageSent = s.startupMessageSent ∧ s'.slotGroupSkipXact = false ∧
        s'.sent = s.sent ++
          if s.slotGroupSkipXact then [] else [.commit commitLsn txn.endLsn txn.commitTime.toUInt64])
      fun _ _ => False := by
  unfold pgDecodeCommitTxn
  simp only [ends_bind, ends_modify, ends_get]
  cases s.slotGroupSkipXact with
  | true => exact ⟨rfl, rfl, (append_nil _).symm⟩
  | false =>
    simp only [Bool.false_eq_true, if_false, ends_bind]
    refine (ends_emit c rfl).2 ((ends_modify _).2 ?_)
    unfold Plugin.relmetacachePrune
    split
    · exact ⟨rfl, rfl, rfl⟩
    · exact ⟨rfl, rfl, rfl⟩

end Writers

/-- In a skipped transaction nothing is decoded, -/
theorem pgDecodeChange_of_skip (h : s.slotGroupSkipXact = true) (relid : UInt32) (change : Change) :
    pgDecodeChange c relid change s = .ok () s := by
  show unlessThat (s.slotGroupSkipXact || s.repairMode) _ s = _
  rw [h]
  rfl

/-- a TRUNCATE neither. -/
theorem pgDecodeTruncate_of_skip (h : s.slotGroupSkipXact = true) (relids : List UInt32)
    (cascade restartSeqs : Bool) : pgDecodeTruncate c relids cascade restartSeqs s = .ok () s := by
  show unlessThat (s.slotGroupSkipXact || s.repairMode) _ s = _
  rw [h]
  rfl

/-- What a callback that sends rows leaves, also if it raises. -/
theorem sends_ended (hx : Keeps (Sends kind) x) (s : Plugin) : Sends kind s (ended (x s)) :=
  ended_of_ends ((hx s).mono (fun _ _ h => h) fun _ _ h =>
    { h with })

/-! ## Invariants of the caches -/

/-- An invariant that messages without columns, and what the plugin notes of the transaction it is
in, have no part in. `J` is left of it where a callback raises. -/
structure Upkept (I J : Plugin → Prop) : Prop where
  raised : ∀ {s}, I s → J s
  marks : ∀ {s} txn raised, J s → J { s with txn := txn, raised := raised }
  statics : ∀ {s} startup group skip ts repair txn, I s → I { s with
    startupMessageSent := startup, slotGroup := group, slotGroupSkipXact := skip,
    slotGroupLastCommitTs := ts, repairMode := repair, txn := txn }
  prune : ∀ {s}, I s → I { s with
    relMetaCache := fun relid => (s.relMetaCache relid).filter (·.isValid)
    invalidRelMetaCacheCnt := 0 }
  emits : ∀ {s m}, isRelation m = false → tupleOf m = none → I s →
    I { s with sent := s.sent ++ [m] }

namespace Upkept

variable {I J : Plugin → Prop} (h : Upkept I J)

include h

/-- A message without columns. -/
theorem maintains_emit {m : Message} (hrel : isRelation m = false) (htuple : tupleOf m = none) :
    Maintains I J (emit c m) :=
  fun _ hs => ends_emit_of c (h.emits hrel htuple hs) fun _ => h.raised hs

theorem maintains_sendStartup (b : Bool) : Maintains I J (unlessThat b (sendStartupMessage c)) :=
  maintains_unlessThat (maintains_bind (h.maintains_emit rfl rfl) fun _ =>
    maintains_modify fun _ => h.statics _ _ _ _ _ _)

/-- BEGIN, the origin and the commit order are such messages, -/
theorem maintains_pgDecodeBeginTxn (txn : Txn) : Maintains I J (pgDecodeBeginTxn c txn) := by
  have horigin : isRelation (originMessage c txn) = false ∧ tupleOf (originMessage c txn) = none := by
    unfold originMessage
    split <;> exact ⟨rfl, rfl⟩
  refine maintains_bind (maintains_modify fun _ => h.statics _ _ _ _ _ _) fun _ =>
    maintains_bind maintains_get fun _ => maintains_bind (maintains_modify fun s hs => ?_) fun _ =>
    maintains_ite (maintains_modify fun _ => h.statics _ _ _ _ _ _) ?_
  · rw [moveCommitTs_frame]
    exact h.statics _ _ _ _ _ _ hs
  · exact maintains_bind (maintains_modify fun _ => h.statics _ _ _ _ _ _) fun _ =>
      maintains_bind (h.maintains_sendStartup _) fun _ =>
      maintains_bind (h.maintains_emit rfl rfl) fun _ => maintains_unlessThat
        (maintains_bind (h.maintains_emit horigin.1 horigin.2) fun _ =>
          maintains_bind maintains_get fun _ => h.maintains_emit rfl rfl)

/-- COMMIT too; it may prune the cache of the sent descriptions. -/
theorem maintains_pgDecodeCommitTxn (txn : Txn) (commitLsn : UInt64) :
    Maintains I J (pgDecodeCommitTxn c txn commitLsn) := by
  refine maintains_bind (maintains_modify fun _ => h.statics _ _ _ _ _ _) fun _ =>
    maintains_bind maintains_get fun _ =>
    maintains_ite (maintains_modify fun _ => h.statics _ _ _ _ _ _)
      (maintains_bind (h.maintains_emit rfl rfl) fun _ => maintains_modify fun s hs => ?_)
  unfold Plugin.relmetacachePrune
  split
  · exact hs
  · exact h.prune hs

theorem maintains_pgDecodeMessage (xid : UInt32) (lsn : UInt64) (transactional : Bool)
    (pref : CString) (message : List UInt8) :
    Maintains I J (pgDecodeMessage c xid lsn transactional pref message) := by
  refine maintains_ite (maintains_pure ()) (maintains_ite (maintains_pure ()) ?_)
  split
  · exact maintains_unlessThat (maintains_modify fun _ => h.statics _ _ _ _ _ _)
  · exact maintains_unlessThat (maintains_modify fun _ => h.statics _ _ _ _ _ _)
  · exact maintains_bind maintains_get fun _ => maintains_bind (h.maintains_sendStartup _) fun _ =>
      h.maintains_emit rfl rfl
  · exact maintains_pure ()

variable (hschema : ∀ s relid, I s → Ends (maybeSendSchema c (s.catalog.relation relid)) s
  (fun _ s' => I s') fun _ s' => J s')

include hschema

/-- The loop over the truncated relations, given what holds of describing one. -/
theorem maintains_truncateLoop (relids : List UInt32) : Maintains I J (truncateLoop c relids) := by
  induction relids with
  | nil => exact maintains_pure []
  | cons relid _ ih =>
    refine maintains_bind (maintains_bind maintains_get fun s => ?_) fun _ => maintains_ite ?_ ih
    · split
      · exact maintains_pure _
      · exact maintains_throw (fun _ => h.raised) _
    · refine fun s hs => (ends_bind _ _).2 (ends_get.2 ((ends_bind _ _).2 ?_))
      refine (hschema s relid hs).imp fun _ s' hs' => ?_
      exact maintains_bind ih (fun _ => maintains_pure _) s' hs'

/-- **One step**, but for the changes of tables and catalogs. -/
theorem step {e : Event} {s' : Plugin} (hs : I s) (hstep : s.step c e = some s')
    (hchange : ∀ relid change, e = .change relid change →
      Ends (pgDecodeChange c relid change) s (fun _ s' => I s') fun _ s' => J s')
    (hinvalidate : ∀ rel rows catalog, e = .invalidate rel rows →
      s.catalog.alter rel rows = some catalog → I (s.invalidated rel.relid catalog))
    (hinvalidateAll : ∀ catalog, e = .invalidateAll catalog → I (s.invalidated invalidOid catalog))
    (hrepsets : ∀ repsets, I { s with catalog := { s.catalog with repsets := repsets } }) :
    J s' ∧ (s'.raised = false → I s') := by
  have hall : ∀ {s' : Plugin}, I s' → J s' ∧ (s'.raised = false → I s') :=
    fun hs' => ⟨h.raised hs', fun _ => hs'⟩
  have hended : ∀ {x : Callback Unit} {s : Plugin},
      Ends x s (fun _ s' => I s') (fun _ s' => J s') →
      J (ended (x s)) ∧ ((ended (x s)).raised = false → I (ended (x s))) := fun hx =>
    ended_of_ends (P := fun s' => J s' ∧ (s'.raised = false → I s'))
      (hx.mono (fun _ _ => hall) fun _ s' hs' => ⟨h.marks s'.txn true hs', nofun⟩)
  cases (stepped_of_step hstep).2 with
  | begin txn => exact hended (h.maintains_pgDecodeBeginTxn txn _ (h.statics _ _ _ _ _ _ hs))
  | change relid change => exact hended (hchange relid change rfl)
  | truncate relids =>
    exact hended (maintains_bind maintains_get (fun _ => maintains_unlessThat
      (maintains_bind (h.maintains_truncateLoop hschema relids) fun _ =>
        maintains_unlessThat (h.maintains_emit rfl rfl))) s hs)
  | message lsn pref message txn =>
    exact hended (h.maintains_pgDecodeMessage txn.xid lsn true pref message s hs)
  | commit commitLsn txn =>
    obtain ⟨hJ, hI⟩ := hended (h.maintains_pgDecodeCommitTxn (c := c) txn commitLsn s hs)
    exact ⟨h.marks none _ hJ, fun hr => h.statics _ _ _ _ _ none (hI hr)⟩
  | standalone xid lsn pref message =>
    exact hended (h.maintains_pgDecodeMessage xid lsn false pref message s hs)
  | slotGroup => exact hall (h.statics _ _ _ _ _ _ hs)
  | invalidate rel rows catalog hcatalog => exact hall (hinvalidate rel rows catalog rfl hcatalog)
  | invalidateAll catalog => exact hall (hinvalidateAll catalog rfl)
  | repsets repsets => exact hall (hrepsets repsets)

end Upkept

end Spock.Output
