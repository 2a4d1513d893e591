import Spock.Output.Sends

/-!
# Spock — the order of the messages on a connection

The messages of a connection are to form a word `S ( B O? L? (R|I|U|D|T|M)* C | M )*`, where a
transactional `M` stands in the block of its own transaction. Words are recognised by an automaton
(`Phase.next`), and the plugin's static variables say which phase it is in (`Tracks`).

* **`shape_of_run`**, **`Word.run`** — the automaton recognises the words;
* **`sent_is_word_iff`** — so the messages are in order exactly when there is no such event.
-/

namespace Spock.Output

open Protocol Repset Runs Outcome List Option

/-! ## Words -/

def isOf (xid : UInt32) : Message → Bool
  | .message x _ transactional _ _ => !transactional || x == xid
  | m => isRow m

/-- `O? L?`, where `L` only follows `O`. -/
inductive Head : List Message → Prop where
  | nil : Head []
  | origin (originId : UInt16) (originLsn : UInt64) (name : Option CString) :
      Head [.origin originId originLsn name]
  | ordered (originId : UInt16) (originLsn : UInt64) (name : Option CString) (ts : UInt64) :
      Head [.origin originId originLsn name, .commitOrder ts]

inductive Block : List Message → Prop where
  | transaction (finalLsn committime : UInt64) (xid : UInt32) {head body : List Message}
      (commitLsn endLsn committime' : UInt64) (hhead : Head head)
      (hbody : ∀ m ∈ body, isOf xid m = true) :
      Block (.begin finalLsn committime xid :: (head ++ body ++ [.commit commitLsn endLsn committime']))
  | event (xid : UInt32) (lsn : UInt64) (pref : CString) (content : List UInt8) :
      Block [.message xid lsn false pref content]

/-- `S` and blocks. -/
def Word (w : List Message) : Prop :=
  ∃ (params : List (CString × CString)) (blocks : List (List Message)),
    w = .startup params :: blocks.flatten ∧ ∀ b ∈ blocks, Block b

variable {w : List Message} {xid : UInt32} {m : Message} {s : Plugin} {c : Connection}

variable {b body : List Message} {s' : Plugin} {txn : Txn}

theorem Word.append_block (hw : Word w) (hb : Block b) : Word (w ++ b) := by
  obtain ⟨params, blocks, rfl, hblocks⟩ := hw
  refine ⟨params, blocks ++ [b], by simp, fun b' hb' => ?_⟩
  rcases mem_append.1 hb' with h | h
  · exact hblocks b' h
  · rw [mem_singleton.1 h]
    exact hb

/-! ## The automaton -/

/-- How far an open block has come: to `B`, to `O`, or beyond. -/
inductive Place where
  | begun | origin | body

inductive Phase where
  | start
  | between
  | block (xid : UInt32) (place : Place)

def inBlock (xid : UInt32) : Place → Message → Option Phase
  | .begun, .origin .. => some (.block xid .origin)
  | .origin, .commitOrder _ => some (.block xid .body)
  | _, .commit .. => some .between
  | _, m => if isOf xid m then some (.block xid .body) else none

def Phase.next : Phase → Message → Option Phase
  | .start, .startup _ => some .between
  | .between, .begin _ _ xid => some (.block xid .begun)
  | .between, .message _ _ false _ _ => some .between
  | .block xid place, m => inBlock xid place m
  | _, _ => none

variable {place : Place}

theorem inBlock_of_isOf (hm : isOf xid m = true) :
    inBlock xid place m = some (.block xid .body) := by
  cases m with
  | message => cases place <;> simp only [inBlock, hm, if_true]
  | relation | insert | update | delete | truncate => cases place <;> rfl
  | startup | begin | commit | origin | commitOrder => cases hm

variable {p : Phase}

theorem inBlock_cases (h : inBlock xid place m = some p) :
    (place = .begun ∧ (∃ i l n, m = .origin i l n) ∧ p = .block xid .origin) ∨
      (place = .origin ∧ (∃ ts, m = .commitOrder ts) ∧ p = .block xid .body) ∨
      ((∃ l l' ts, m = .commit l l' ts) ∧ p = .between) ∨
      (isOf xid m = true ∧ p = .block xid .body) := by
  unfold inBlock at h
  split at h
  · cases h
    exact .inl ⟨rfl, ⟨_, _, _, rfl⟩, rfl⟩
  · cases h
    exact .inr (.inl ⟨rfl, ⟨_, rfl⟩, rfl⟩)
  · cases h
    exact .inr (.inr (.inl ⟨⟨_, _, _, rfl⟩, rfl⟩))
  · split at h
    · rename_i hm
      cases h
      exact .inr (.inr (.inr ⟨hm, rfl⟩))
    · cases h

def HeadAt : Place → List Message → List Message → Prop
  | .begun, head, body => head = [] ∧ body = []
  | .origin, head, body => (∃ i l n, head = [.origin i l n]) ∧ body = []
  | .body, head, _ => Head head

theorem HeadAt.head {head : List Message} (h : HeadAt place head body) : Head head := by
  cases place with
  | begun =>
    rw [h.1]
    exact .nil
  | origin =>
    obtain ⟨⟨i, l, n, rfl⟩, -⟩ := h
    exact .origin i l n
  | body => exact h

def Shape : Phase → List Message → Prop
  | .start, w => w = []
  | .between, w => Word w
  | .block xid place, w => ∃ w₀ finalLsn committime head body, Word w₀ ∧
      w = w₀ ++ .begin finalLsn committime xid :: (head ++ body) ∧ HeadAt place head body ∧
        ∀ m ∈ body, isOf xid m = true

theorem Shape.inBlock (hw : Shape (.block xid place) w) (h : inBlock xid place m = some p) :
    Shape p (w ++ [m]) := by
  obtain ⟨w₀, finalLsn, committime, head, body, hw₀, rfl, hhead, hbody⟩ := hw
  rcases inBlock_cases h with ⟨rfl, ⟨i, l, n, rfl⟩, rfl⟩ | ⟨rfl, ⟨ts, rfl⟩, rfl⟩ |
    ⟨⟨l, l', ts, rfl⟩, rfl⟩ | ⟨hm, rfl⟩
  · obtain ⟨rfl, rfl⟩ := hhead
    exact ⟨w₀, finalLsn, committime, [.origin i l n], [], hw₀, by simp, ⟨⟨i, l, n, rfl⟩, rfl⟩, nofun⟩
  · obtain ⟨⟨i, l, n, rfl⟩, rfl⟩ := hhead
    exact ⟨w₀, finalLsn, committime, [.origin i l n, .commitOrder ts], [], hw₀, by simp,
      .ordered i l n ts, nofun⟩
  · have hblock := hw₀.append_block (.transaction finalLsn committime xid l l' ts hhead.head hbody)
    rw [append_assoc, cons_append]
    exact hblock
  · refine ⟨w₀, finalLsn, committime, head, body ++ [m], hw₀, by simp, hhead.head, fun m' hm' => ?_⟩
    rcases mem_append.1 hm' with h | h
    · exact hbody m' h
    · rw [mem_singleton.1 h]
      exact hm

theorem Shape.next {p' : Phase} (hw : Shape p w) (h : p.next m = some p') :
    Shape p' (w ++ [m]) := by
  unfold Phase.next at h
  split at h
  · cases h
    rw [show w = [] from hw]
    exact ⟨_, [], rfl, nofun⟩
  · cases h
    exact ⟨w, _, _, [], [], hw, rfl, ⟨rfl, rfl⟩, nofun⟩
  · cases h
    exact hw.append_block (.event _ _ _ _)
  · exact hw.inBlock h
  · cases h

theorem shape_of_run {p' : Phase} {w' : List Message} (hw : Shape p w)
    (h : run Phase.next p w' = some p') : Shape p' (w ++ w') := by
  induction w' generalizing p w with
  | nil =>
    cases h
    rw [append_nil]
    exact hw
  | cons _ _ ih =>
    obtain ⟨_, hp₁, hrest⟩ := run_cons_eq_some.1 h
    have hshape := ih (hw.next hp₁) hrest
    rw [append_assoc] at hshape
    exact hshape

theorem Shape.completes (hw : Shape p w) : ∃ rest, Word (w ++ rest) := by
  cases p with
  | start =>
    rw [show w = [] from hw]
    exact ⟨[.startup []], [], [], rfl, nofun⟩
  | between =>
    refine ⟨[], ?_⟩
    rw [append_nil]
    exact hw
  | block _ place =>
    refine ⟨[.commit 0 0 0], hw.inBlock (p := .between) ?_⟩
    cases place <;> rfl

theorem isOf_of_isRow (hm : isRow m = true) : isOf xid m = true := by
  cases m <;> first | exact hm | cases hm

theorem run_body (hbody : ∀ m ∈ body, isOf xid m = true) (place : Place) :
    ∃ place', run Phase.next (.block xid place) body = some (.block xid place') := by
  induction body generalizing place with
  | nil => exact ⟨place, rfl⟩
  | cons m body ih =>
    obtain ⟨place', h⟩ := ih (fun m' hm' => hbody m' (.tail _ hm')) .body
    refine ⟨place', ?_⟩
    rw [run_cons, show Phase.next (.block xid place) m = some (.block xid .body) from
      inBlock_of_isOf (hbody m (.head _))]
    exact h

theorem Block.run (hb : Block b) : run Phase.next .between b = some .between := by
  cases hb with
  | event => rfl
  | @transaction finalLsn committime xid head body commitLsn endLsn committime' hhead hbody =>
    have hplace : ∃ place, Runs.run Phase.next (.block xid .begun) head = some (.block xid place) := by
      cases hhead with
      | nil => exact ⟨.begun, rfl⟩
      | origin => exact ⟨.origin, rfl⟩
      | ordered => exact ⟨.body, rfl⟩
    obtain ⟨place, hhead'⟩ := hplace
    obtain ⟨place', hbody'⟩ := run_body hbody place
    rw [run_cons, show Phase.next .between (.begin finalLsn committime xid) =
      some (.block xid .begun) from rfl, bind_some, run_append, run_append, hhead',
      bind_some, hbody', bind_some]
    cases place' <;> rfl

theorem Word.run (hw : Word w) : run Phase.next .start w = some .between := by
  obtain ⟨params, blocks, rfl, hblocks⟩ := hw
  rw [run_cons, show Phase.next .start (.startup params) = some .between from rfl, bind_some]
  induction blocks with
  | nil => rfl
  | cons b _ ih =>
    rw [flatten_cons, run_append, (hblocks b (.head _)).run, bind_some]
    exact ih fun b' hb' => hblocks b' (.tail _ hb')

/-! ## Steps -/

def Plugin.outside (s : Plugin) : Phase := if s.startupMessageSent then .between else .start

def Tracks (s : Plugin) (p : Phase) : Prop :=
  match s.txn, s.slotGroupSkipXact with
  | none, skip => skip = false ∧ p = s.outside
  | some _, true => p = s.outside
  | some txn, false => s.startupMessageSent = true ∧ ∃ place, p = .block txn.xid place

def Good (s : Plugin) : Prop := ∃ p, run Phase.next .start s.sent = some p ∧ Tracks s p

def Bad (s : Plugin) : Prop := run Phase.next .start s.sent = none

def NoStrayEvent (s : Plugin) : Event → Prop
  | .message _ pref message => isSyncEvent pref message = true → s.slotGroupSkipXact = false
  | _ => True

instance (s : Plugin) (e : Event) : Decidable (NoStrayEvent s e) := by
  cases e <;> unfold NoStrayEvent <;> infer_instance

theorem Good.congr (h : Good s) (hsent : s'.sent = s.sent := by rfl)
    (hstartup : s'.startupMessageSent = s.startupMessageSent := by rfl)
    (hskip : s'.slotGroupSkipXact = s.slotGroupSkipXact := by rfl)
    (htxn : s'.txn = s.txn := by rfl) : Good s' := by
  obtain ⟨p, hrun, htracks⟩ := h
  refine ⟨p, by rw [hsent]; exact hrun, ?_⟩
  unfold Tracks Plugin.outside at htracks ⊢
  rw [hstartup, hskip, htxn]
  exact htracks

theorem run_startupMessages (c : Connection) (s : Plugin) :
    run Phase.next s.outside (s.startupMessages c) = some .between := by
  unfold Plugin.outside Plugin.startupMessages
  cases s.startupMessageSent <;> rfl

theorem run_opening (c : Connection) (txn : Txn) (ts : UInt64) :
    ∃ place, run Phase.next .between (opening c txn ts) = some (.block txn.xid place) := by
  unfold opening originMessage
  cases c.forwardChangesetOrigins with
  | false => exact ⟨.begun, rfl⟩
  | true =>
    refine ⟨.body, ?_⟩
    rw [if_pos rfl]
    split <;> rfl

section

variable (h : Good s)

include h

theorem Good.rows (htxn : s.txn = some txn) (hskip : s.slotGroupSkipXact = false)
    (hrows : Sends isRow s s') : Good s' := by
  obtain ⟨p, hrun, htracks⟩ := h
  obtain ⟨_, hsent, hrow⟩ := hrows.sent
  unfold Tracks at htracks
  rw [htxn, hskip] at htracks
  obtain ⟨hstartup, place, rfl⟩ := htracks
  obtain ⟨place', hrun'⟩ := run_body (fun m hm => isOf_of_isRow (hrow m hm)) place
  refine ⟨.block txn.xid place', ?_, ?_⟩
  · rw [hsent, run_append, hrun, bind_some, hrun']
  · unfold Tracks
    rw [hrows.txn, htxn, hrows.skip, hskip, hrows.startup]
    exact ⟨hstartup, place', rfl⟩

theorem Good.begin (htxn : s.txn = none) :
    Good (ended (pgDecodeBeginTxn c txn { s with txn := some txn })) := by
  obtain ⟨p, hrun, htracks⟩ := h
  unfold Tracks at htracks
  rw [htxn] at htracks
  obtain ⟨hskip, rfl⟩ := htracks
  refine ended_of_ends ((ends_pgDecodeBeginTxn c txn _).mono (fun _ s' hs' => ?_) fun _ _ => False.elim)
  obtain ⟨htxn', -, hs'⟩ := hs'
  split at hs'
  · obtain ⟨-, hsent, hstartup, hskip'⟩ := hs'
    refine ⟨s.outside, by rw [hsent]; exact hrun, ?_⟩
    unfold Tracks Plugin.outside
    rw [htxn', hskip', hstartup]
  · obtain ⟨-, hsent, hstartup, hskip'⟩ := hs'
    obtain ⟨place, hopening⟩ := run_opening c txn
      (Plugin.moveCommitTs { s with txn := some txn } txn).slotGroupLastCommitTs.toUInt64
    refine ⟨.block txn.xid place, ?_, ?_⟩
    · rw [hsent]
      show run Phase.next .start (s.sent ++ s.startupMessages c ++ opening c txn _) = _
      rw [append_assoc, run_append, hrun, bind_some, run_append, run_startupMessages,
        bind_some, hopening]
    · unfold Tracks
      rw [htxn', hskip', hstartup, show _ = false from hskip]
      exact ⟨rfl, place, rfl⟩

theorem Good.commit (htxn : s.txn = some txn) (commitLsn : UInt64) :
    Good { ended (pgDecodeCommitTxn c txn commitLsn s) with txn := none } := by
  obtain ⟨p, hrun, htracks⟩ := h
  unfold Tracks at htracks
  rw [htxn] at htracks
  refine ended_of_ends (P := fun s' => Good { s' with txn := none })
    ((ends_pgDecodeCommitTxn c txn commitLsn s).mono (fun _ s' hs' => ?_) fun _ _ => False.elim)
  obtain ⟨hstartup, hskip', hsent⟩ := hs'
  cases hskip : s.slotGroupSkipXact with
  | true =>
    rw [hskip] at htracks hsent
    refine ⟨p, ?_, hskip', ?_⟩
    · rw [hsent, if_pos rfl, append_nil, hrun]
    · rw [show p = s.outside from htracks]
      unfold Plugin.outside
      rw [hstartup]
  | false =>
    rw [hskip] at htracks hsent
    obtain ⟨hsent', place, rfl⟩ := htracks
    refine ⟨.between, ?_, hskip', ?_⟩
    · rw [hsent, run_append, hrun, bind_some]
      cases place <;> rfl
    · unfold Plugin.outside
      rw [hstartup, hsent', if_pos rfl]

theorem Good.standalone (htxn : s.txn = none) (xid : UInt32) (lsn : UInt64)
    (pref : CString) (message : List UInt8) :
    Good (ended (pgDecodeMessage c xid lsn false pref message s)) := by
  cases hevent : isSyncEvent pref message with
  | false =>
    refine ended_of_ends ((ends_otherMessage c hevent xid lsn false s).mono ?_ fun _ _ => False.elim)
    rintro _ _ ⟨b, rfl⟩
    exact h.congr
  | true =>
    obtain ⟨p, hrun, htracks⟩ := h
    unfold Tracks at htracks
    rw [htxn] at htracks
    obtain ⟨hskip, rfl⟩ := htracks
    refine ended_of_ends ((ends_syncEvent c hevent xid lsn false).2 ⟨.between, ?_, ?_⟩)
    · rw [append_assoc, run_append, hrun, bind_some, run_append, run_startupMessages]
      rfl
    · unfold Tracks
      rw [htxn]
      exact ⟨hskip, rfl⟩

theorem Good.message (htxn : s.txn = some txn) (lsn : UInt64) (pref : CString)
    (message : List UInt8) (hstray : isSyncEvent pref message = true → s.slotGroupSkipXact = false) :
    Good (ended (pgDecodeMessage c txn.xid lsn true pref message s)) := by
  cases hevent : isSyncEvent pref message with
  | false =>
    refine ended_of_ends ((ends_otherMessage c hevent _ lsn true s).mono ?_ fun _ _ => False.elim)
    rintro _ _ ⟨b, rfl⟩
    exact h.congr
  | true =>
    have hskip := hstray hevent
    obtain ⟨p, hrun, htracks⟩ := h
    unfold Tracks at htracks
    rw [htxn, hskip] at htracks
    obtain ⟨hstartup, place, rfl⟩ := htracks
    have hof : isOf txn.xid (.message txn.xid lsn true pref message) = true := by
      simp [isOf]
    refine ended_of_ends ((ends_syncEvent c hevent _ lsn true).2 ⟨.block txn.xid .body, ?_, ?_⟩)
    · rw [Plugin.startupMessages, hstartup, if_pos rfl, append_nil, run_append, hrun,
        bind_some, run_cons, show Phase.next (.block txn.xid place) _ = _ from
          inBlock_of_isOf hof]
      rfl
    · unfold Tracks
      rw [htxn, hskip]
      exact ⟨rfl, .body, rfl⟩

theorem Good.stray (htxn : s.txn = some txn) (lsn : UInt64) {pref : CString}
    {message : List UInt8} (hevent : isSyncEvent pref message = true)
    (hskip : s.slotGroupSkipXact = true) :
    Bad (ended (pgDecodeMessage c txn.xid lsn true pref message s)) := by
  obtain ⟨p, hrun, htracks⟩ := h
  unfold Tracks at htracks
  rw [htxn, hskip] at htracks
  subst htracks
  refine ended_of_ends ((ends_syncEvent c hevent _ lsn true).2 ?_)
  unfold Bad
  rw [append_assoc, run_append, hrun, bind_some, run_append, run_startupMessages]
  rfl

end

section Runs

variable {e : Event}

/-- **One step.** -/
theorem step_good (hs : Good s) (hstray : NoStrayEvent s e) (h : s.step c e = some s') : Good s' := by
  cases (stepped_of_step h).2 with
  | begin _ htxn => exact hs.begin htxn
  | change relid change _ htxn =>
    cases hskip : s.slotGroupSkipXact with
    | true =>
      rw [pgDecodeChange_of_skip hskip]
      exact hs
    | false => exact hs.rows htxn hskip (sends_ended (keeps_pgDecodeChange c relid change) s)
  | truncate relids cascade restartSeqs _ htxn =>
    cases hskip : s.slotGroupSkipXact with
    | true =>
      rw [pgDecodeTruncate_of_skip hskip]
      exact hs
    | false =>
      exact hs.rows htxn hskip (sends_ended (keeps_pgDecodeTruncate c relids cascade restartSeqs) s)
  | message lsn pref message _ htxn => exact hs.message htxn lsn pref message hstray
  | commit commitLsn _ htxn => exact hs.commit htxn commitLsn
  | standalone xid lsn pref message htxn => exact hs.standalone htxn xid lsn pref message
  | slotGroup | invalidate | invalidateAll | repsets => exact hs.congr

/-- **The step that breaks the order.** -/
theorem step_bad (hs : Good s) (hstray : ¬ NoStrayEvent s e) (h : s.step c e = some s') : Bad s' := by
  cases (stepped_of_step h).2 with
  | message lsn _ _ _ htxn =>
    obtain ⟨hevent, hskip⟩ := Classical.not_imp.1 hstray
    exact hs.stray htxn lsn hevent (Bool.eq_true_of_not_eq_false hskip)
  | _ => exact absurd trivial hstray

theorem step_sent (h : s.step c e = some s') : ∃ out, s'.sent = s.sent ++ out := by
  have hupkept : Upkept (fun s' => ∃ out, s'.sent = s.sent ++ out)
      fun s' => ∃ out, s'.sent = s.sent ++ out := by
    refine ⟨id, fun _ _ => id, fun _ _ _ _ _ _ => id, id, ?_⟩
    rintro s' m - - ⟨out, hout⟩
    exact ⟨out ++ [m], by rw [hout, append_assoc]⟩
  have hrows : ∀ {x : Callback Unit} {s₁ kind}, Keeps (Sends kind) x →
      (∃ out, s₁.sent = s.sent ++ out) → Ends x s₁ (fun _ s' => ∃ out, s'.sent = s.sent ++ out)
        fun _ s' => ∃ out, s'.sent = s.sent ++ out := by
    rintro x s₁ kind hx ⟨out, hout⟩
    have hmore : ∀ {s'}, Sends kind s₁ s' → ∃ out, s'.sent = s.sent ++ out := fun hs' => by
      obtain ⟨more, hmore, -⟩ := hs'.sent
      exact ⟨out ++ more, by rw [hmore, hout, append_assoc]⟩
    exact (hx s₁).mono (fun _ _ => hmore) fun _ _ => hmore
  have hnil : ∃ out, s.sent = s.sent ++ out := ⟨[], (append_nil _).symm⟩
  have hschema := keeps_maybeSendSchema c fun rel attList => (rfl : isRow (.relation rel attList) = _)
  exact (hupkept.step (fun s₁ relid => hrows (hschema _)) hnil h
    (fun relid change _ => hrows (keeps_pgDecodeChange c relid change) hnil) (fun _ _ _ _ _ => hnil) (fun _ _ => hnil) fun _ => hnil).1

theorem step_stays_bad (hs : Bad s) (h : s.step c e = some s') : Bad s' := by
  obtain ⟨_, hout⟩ := step_sent h
  unfold Bad at hs ⊢
  rw [hout, run_append, hs]
  rfl

/-- The messages sent so far: the beginning of a word, and a whole word, or nothing, when no
transaction is open. -/
def InOrder (s : Plugin) : Prop :=
  (∃ rest, Word (s.sent ++ rest)) ∧ (s.txn = none → s.sent = [] ∨ Word s.sent)

theorem Good.inOrder (h : Good s) : InOrder s := by
  obtain ⟨p, hrun, htracks⟩ := h
  have hshape : Shape p s.sent := shape_of_run (p := .start) (w := []) rfl hrun
  refine ⟨hshape.completes, fun htxn => ?_⟩
  unfold Tracks at htracks
  rw [htxn] at htracks
  obtain ⟨-, rfl⟩ := htracks
  unfold Plugin.outside at hshape
  split at hshape
  · exact .inr hshape
  · exact .inl hshape

theorem Bad.not_inOrder (h : Bad s) : ¬ InOrder s := by
  rintro ⟨⟨rest, hword⟩, -⟩
  have hrun := hword.run
  rw [run_append, h] at hrun
  cases hrun

/-- **The order of the messages on a connection.** For every sequence of callbacks, whatever other
members of the slot group claim and whatever messages switch the repair mode, the messages form a
word exactly if no transaction that this member skips contains a transactional sync event. -/
theorem sent_is_word_iff (c : Connection) (catalog : Catalog) (replicationSets : List RepSet)
    (slotGroup : Option SlotGroup) (es : List Event) (s : Plugin)
    (hrun : run (Plugin.step c) (.connect catalog replicationSets slotGroup) es = some s) :
    InOrder s ↔
      Along (Plugin.step c) NoStrayEvent (.connect catalog replicationSets slotGroup) es := by
  have hgood : Good (.connect catalog replicationSets slotGroup) := ⟨.start, rfl, rfl, rfl⟩
  exact good_iff_along (fun _ hs => hs.inOrder) (fun _ hs => hs.not_inOrder)
    (fun _ _ _ hs hstray h => step_good hs hstray h) (fun _ _ _ hs hstray h => step_bad hs hstray h)
    (fun _ _ _ hs h => step_stays_bad hs h) hgood hrun

end Runs

section Sample

def sampleMember : Plugin := .connect (sampleCatalog [] fun _ => none) [] (some ⟨100, 0⟩)

/-- A transaction of ours with a sync event, one that another member works on, and a sync event on
its own. -/
def sampleDecoding : List Event :=
  [.begin (sampleTxn 9 200), .message 150 spockMessage [3, 0, 0, 0], .commit 190,
    .slotGroup ⟨400, 0⟩, .begin (sampleTxn 10 300), .message 250 spockMessage [1, 0, 0, 0],
    .commit 290, .standalone 0 310 spockMessage [3, 0, 0, 0]]

/-- **Satisfiable.** -/
theorem sent_is_word_iff_sample : ∃ s, run (Plugin.step (sampleConnection none)) sampleMember
    sampleDecoding = some s ∧ s.sent.length = 7 ∧ InOrder s :=
  ⟨_, rfl, rfl, (sent_is_word_iff (sampleConnection none) (sampleCatalog [] fun _ => none) []
    (some ⟨100, 0⟩) sampleDecoding _ rfl).2 (by decide)⟩

/-- **A stray sync event.** The transaction with `end_lsn` 50 is another member's, but its
transactional sync event is sent all the same, outside of any transaction. -/
theorem stray_sync_event : ∃ s, run (Plugin.step (sampleConnection none)) sampleMember
    [.begin (sampleTxn 9 50), .message 40 spockMessage [3, 0, 0, 0], .commit 45] = some s ∧
      ¬ InOrder s :=
  ⟨_, rfl, Bad.not_inOrder rfl⟩

end Sample

end Spock.Output
