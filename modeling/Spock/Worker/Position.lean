import Spock.Worker.Frames

/-!
# Spock — the position of a worker

Two LSNs say where an apply worker is in its stream: the position of the replication origin, which
is durable and seen by everyone, and `replorigin_session_origin_lsn`, to which the next local commit
that writes WAL moves it. `handle_begin` sets the second to the start of the commit record, and
`handle_commit` to its end, unless there was nothing to apply.

* **`handleBegin_position`**, **`handleChange_position`**, **`handleCommit_position`**,
  **`handleMessage_position`** — how the handlers move it.
-/

namespace Spock

open Outcome

/-- The position of the replication origin (`remote_lsn` of `pg_replication_origin_status`), and
`replorigin_session_origin_lsn`, where the next local commit that writes WAL moves it. -/
structure Position where
  remoteLsn : Nat
  sessionLsn : Nat
  deriving DecidableEq

/-- How the local side of a remote transaction ends: there was nothing to apply, what there was left
no trace in the local WAL, or a commit record was written. -/
inductive Ending where
  | empty
  | readOnly
  | wrote
  deriving DecidableEq

namespace Position

def advance (p : Position) (lsn : Nat) : Position := { p with remoteLsn := max p.remoteLsn lsn }

def commit (p : Position) : Position := p.advance p.sessionLsn

/-- `handle_begin`. -/
def begin (p : Position) (commitLsn : Nat) : Position := { p with sessionLsn := commitLsn }

/-- `handle_commit`. -/
def settle (p : Position) (endLsn : Nat) : Ending → Position
  | .empty => p.advance endLsn
  | .readOnly => { p with sessionLsn := endLsn }
  | .wrote => commit { p with sessionLsn := endLsn }

theorem commit_commit (p : Position) : p.commit.commit = p.commit := by
  simp only [commit, advance, max_assoc, max_self]

end Position

def Node.position (n : Node) : Position := ⟨n.origin, n.sessionOriginLsn⟩

/-! ### The handlers -/

variable {n : Node}

theorem Node.commitOwn_position (n : Node) (wrote : Bool) :
    (n.commitOwn wrote).position = if wrote then n.position.commit else n.position := by
  cases wrote <;> rfl

theorem Node.commitRemote_position (n : Node) (commitLsn endLsn : Nat) (skipped : Bool) :
    (n.commitRemote commitLsn endLsn skipped).position = n.position ∨
      (n.commitRemote commitLsn endLsn skipped).position = n.position.commit := by
  have hcommit : ∀ (wal clears : Bool) (effects : List Effect) (ended : Option Ended),
      (n.commitTransaction wal (resetSkipLsn clears) effects ended).position = n.position ∨
        (n.commitTransaction wal (resetSkipLsn clears) effects ended).position = n.position.commit := by
    intro wal clears effects ended
    cases wal
    · exact .inl rfl
    · exact .inr rfl
  exact hcommit _ _ _ _

/-- The position when the remote transaction has ended, and the commits of the worker's own that may
follow. -/
def Node.Reaches (n : Node) (endLsn : Nat) (n' : Node) : Prop :=
  ∃ o : Ending, n'.position = n.position.settle endLsn o ∨
    n'.position = (n.position.settle endLsn o).commit

theorem Node.Reaches.commitOwn {m : Node} {endLsn : Nat} (h : n.Reaches endLsn m) (wrote : Bool) :
    n.Reaches endLsn (m.commitOwn wrote) := by
  obtain ⟨o, h⟩ := h
  refine ⟨o, ?_⟩
  rw [m.commitOwn_position]
  cases wrote with
  | false => exact h
  | true =>
    refine .inr ?_
    rcases h with h | h
    · exact congrArg Position.commit h
    · exact (congrArg Position.commit h).trans (Position.commit_commit _)

theorem finishCommit_reaches (sub : Subscription) {endLsn : Nat} (env : CommitEnv) {m : Node}
    (h : n.Reaches endLsn m) :
    Ends (finishCommit sub endLsn env) m (fun _ n' => n.Reaches endLsn n') fun _ _ => True := by
  refine finishCommit_ends (fun _ _ => trivial) fun m' hm' => ?_
  have h' : n.Reaches endLsn m' := by
    rcases hm' with rfl | rfl
    · exact h
    · exact h.commitOwn env.forwardWrites
  refine endRemoteTransaction_ends (fun _ _ => trivial) (fun _ _ => trivial) trivial
    (fun _ _ => trivial) ?_
  exact Node.Reaches.commitOwn (m := m'.leaveRemoteTransaction.resetTransaction) h' env.tablesWrite

theorem settle_reaches (sub : Subscription) (commitLsn endLsn : Nat) (skipped : Bool)
    (env : CommitEnv) (hexception : n.xactHadException = false) (htry : n.useTryBlock = false) :
    Ends (settle sub commitLsn endLsn skipped env) n (fun _ n' => n.Reaches endLsn n')
      fun _ _ => True := by
  refine settle_ends (fun _ => ?_) fun _ => ⟨.empty, .inl rfl⟩
  refine commitLocally_ends (fun _ _ => trivial) ?_
  refine commitStaged_ends (fun _ _ => trivial)
    (fun _ _ => trivial) fun _ => ?_
  -- without an exception the end of the transaction is staged for its local commit
  have hadvances : n.clearSubscriptionSkipLsn.advancesOrigin = true := by
    show ((!n.xactHadException && !(n.useTryBlock && _)) || _ || _) = true
    rw [hexception, htry]
    rfl
  have hstaged : ((n.clearSubscriptionSkipLsn.stageOriginLsn endLsn).clearDiscarded).position
      = n.position.settle endLsn .readOnly := by
    show (⟨_, if _ then _ else _⟩ : Position) = _
    rw [if_pos hadvances]
    rfl
  rcases Node.commitRemote_position (n.clearSubscriptionSkipLsn.stageOriginLsn endLsn).clearDiscarded
    commitLsn endLsn skipped with h | h
  · exact ⟨.readOnly, .inl (h.trans hstaged)⟩
  · exact ⟨.wrote, .inl (h.trans (congrArg Position.commit hstaged))⟩

/-- **COMMIT** of a transaction that raised nothing. -/
theorem handleCommit_position (sub : Subscription) (commitLsn endLsn : Nat) (env : CommitEnv)
    (hexception : n.xactHadException = false) (htry : n.useTryBlock = false) :
    Ends (handleCommit sub commitLsn endLsn env) n (fun _ n' => n.Reaches endLsn n')
      fun _ _ => True := by
  have hsettle : ∀ (skipped : Bool) (m : Node), m.position = n.position →
      m.xactHadException = false → m.useTryBlock = false →
      Ends (settle sub commitLsn endLsn skipped env) m
        (fun _ n' => Ends (finishCommit sub endLsn env) n' (fun _ n' => n.Reaches endLsn n')
          fun _ _ => True) fun _ _ => True := by
    intro skipped m hm hexception htry
    refine (settle_reaches sub commitLsn endLsn skipped env hexception htry).mono ?_
      fun _ _ _ => trivial
    intro _ n' hn'
    refine finishCommit_reaches sub env ?_
    rwa [Node.Reaches, ← hm]
  exact handleCommit_ends (fun _ _ => trivial)
    (fun _ => hsettle false _ rfl hexception htry) fun _ => hsettle true _ rfl hexception rfl

/-- BEGIN and the changes leave the origin; BEGIN sets the session's position. -/
theorem handleBegin_position (sub : Subscription) (commitLsn : Nat) (fault : Option Fault) :
    Ends (handleBegin sub commitLsn fault) n
      (fun _ n' => n'.position = n.position.begin commitLsn) fun _ _ => True := by
  refine ((keeps_handleBegin n).and
    (handleBegin_ends)).mono ?_ fun _ _ _ => trivial
  rintro _ n' ⟨hf, -, hsession, -⟩
  show (⟨n'.durable.origin, n'.sessionOriginLsn⟩ : Position) = _
  rw [hf.durable, hsession]
  rfl

theorem handleChange_position (id : Nat) (result : ChangeResult) :
    Ends (handleChange id result) n (fun _ n' => n'.position = n.position) fun _ _ => True := by
  refine (keeps_handleChange n).mono ?_ fun _ _ _ => trivial
  intro _ n' hf
  show (⟨n'.durable.origin, n'.sessionOriginLsn⟩ : Position) = _
  rw [hf.durable, hf.session]
  rfl

/-- **MESSAGE.** Only a non-transactional marker moves the position. -/
theorem handleMessage_position (lsn : Nat) (transactional : Bool) :
    Ends (handleMessage lsn transactional none) n
      (fun _ n' => n'.position = if transactional then n.position else n.position.advance lsn)
      fun _ _ => False := by
  cases transactional <;> rfl

end Spock
