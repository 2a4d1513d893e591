import Spock.Lib.NestLevels
import Spock.Lib.Runs

/-!
# Spock — the settings of a worker that executes queued statements

A queued message is executed statement by statement as the role it came from. Around each statement
`spock_execute_sql_command` saves the user id and security context and opens a nest level of the
configuration settings, which it closes with `AtEOXact_GUC(true, …)`, as at a commit. What SET LOCAL
and the SET clauses of functions have done is undone then. A plain SET is kept, also beyond the
transaction; and each message starts with `SET search_path TO …`, made by `append_set_search_path`.

* **`executeStatement`**, **`spockExecuteSqlCommand`** — a statement and a message;
* **`settings_restored`** — as long as plain SETs assign the values in force, no message changes
  the user, the security context or a setting, and delta functions are found as before.
-/

namespace Spock.SqlCommand

open NestLevels Runs List Option

/-! ## Messages -/

/-- `SECURITY_LOCAL_USERID_CHANGE`. -/
def securityLocalUseridChange : Nat := 1

/-- A statement: what it does to the settings, and to the user id and security context. -/
structure Statement where
  effect : Effect String String
  user : Nat × Nat → Nat × Nat

structure DeltaFunction where
  nspname : String
  proname : String
  typeoid : Nat
  oid : Nat
  deriving DecidableEq

/-- The catalogs, with the schemas that a value of `search_path` stands for. -/
structure Catalog where
  getRoleOid : String → Option Nat
  fetchSearchPath : String → List String
  functions : List DeltaFunction

/-- The worker; `lookups` are the delta functions found for the row changes so far. -/
structure Worker where
  userid : Nat
  secContext : Nat
  settings : Settings String String
  lookups : List (Option Nat)

/-- `append_set_search_path`, as the statement it makes: a path of no schema is one empty name. -/
def setSearchPath (quoteIdentifier : String → String) (schemas : List String) : Statement where
  effect := .assign false "search_path"
    (", ".intercalate ((if schemas.isEmpty then [""] else schemas).map quoteIdentifier))
  user := id

def executeStatement (roleid : Nat) (st : Statement) (w : Worker) : Worker :=
  -- SetUserIdAndSecContext, NewGUCNestLevel
  let started : Worker :=
    { w with
      userid := roleid
      secContext := w.secContext ||| securityLocalUseridChange
      settings := w.settings.enter [] }
  let user := st.user (started.userid, started.secContext)
  let executed : Worker :=
    { started with
      userid := user.1
      secContext := user.2
      settings := st.effect.run started.settings }
  -- AtEOXact_GUC(true, save_nestlevel), SetUserIdAndSecContext
  { executed with
    settings := executed.settings.commit
    userid := w.userid
    secContext := w.secContext }

/-- `spock_execute_sql_command`. A role that does not exist is an error. -/
def spockExecuteSqlCommand (cat : Catalog) (role : String) :
    List Statement → Worker → Option Worker
  | [], w => some w
  | st :: statements, w => do
    let roleid ← cat.getRoleOid role
    spockExecuteSqlCommand cat role statements (executeStatement roleid st w)

/-! ## The worker -/

/-- `spock_lookup_delta_function`: in the schema that is given, or in the first one of the path that
has a match. -/
def spockLookupDeltaFunction (cat : Catalog) (searchPath : String) (schema : Option String)
    (fname : String) (typeoid : Nat) : Option Nat :=
  ((schema.map ([·])).getD (cat.fetchSearchPath searchPath)).findSome? fun nspname =>
    (cat.functions.find? fun f =>
      f.nspname == nspname && f.proname == fname && f.typeoid == typeoid).map (·.oid)

/-- A transaction begins, executes messages and applies row changes (here, with a column whose delta
function is looked up), and commits or is aborted. -/
inductive Event where
  | begin
  | message (role : String) (statements : List Statement)
  | change (schema : Option String) (fname : String) (typeoid : Nat)
  | commit
  | abort

def Event.lookedUp (cat : Catalog) (searchPath : String) : Event → Option (Option Nat)
  | .change schema fname typeoid =>
    some (spockLookupDeltaFunction cat searchPath schema fname typeoid)
  | .begin | .message _ _ | .commit | .abort => none

/-- A worker that executes messages and applies row changes in transactions. -/
def step (cat : Catalog) (w : Worker) (e : Event) : Option Worker :=
  match e with
  | .begin =>
    if w.settings.levels.isEmpty then some { w with settings := w.settings.enter [] } else none
  | .message role statements =>
    if w.settings.levels.isEmpty then none else spockExecuteSqlCommand cat role statements w
  | .change schema fname typeoid =>
    if w.settings.levels.isEmpty then none
    else
      let searchPath := w.settings.value "search_path"
      let found := spockLookupDeltaFunction cat searchPath schema fname typeoid
      some { w with lookups := w.lookups ++ [found] }
  | .commit =>
    if w.settings.levels.isEmpty then none else some { w with settings := w.settings.commit }
  | .abort =>
    if w.settings.levels.isEmpty then none else some { w with settings := w.settings.abort }

/-- Plain SETs in the statements of a message assign the values in force. -/
def Careful (w : Worker) : Event → Prop
  | .message _ statements => ∀ st ∈ statements, st.effect.Keeps w.settings.value
  | .begin | .change _ _ _ | .commit | .abort => True

instance (w : Worker) (e : Event) : Decidable (Careful w e) := by
  cases e <;> unfold Careful <;> infer_instance

/-! ## What is restored -/

variable {cat : Catalog} {w w' : Worker} {base : String → String}

theorem settings_executeStatement (roleid : Nat) (st : Statement) (w : Worker) :
    (executeStatement roleid st w).settings = (Effect.level true [] st.effect).run w.settings := rfl

/-- The user is the same, the settings are settled, and these delta functions were looked up. -/
structure Restored (base : String → String) (found : List (Option Nat)) (w w' : Worker) : Prop where
  userid : w'.userid = w.userid
  secContext : w'.secContext = w.secContext
  settled : Settled base w'.settings
  lookups : w'.lookups = w.lookups ++ found

/-- **A message.** The user and security context are restored whatever the statements do; the
settings by induction over the statements, each of which starts from settled levels. -/
theorem restored_spockExecuteSqlCommand {role : String} {statements : List Statement}
    (hsettled : Settled base w.settings) (hkeeps : ∀ st ∈ statements, st.effect.Keeps base)
    (h : spockExecuteSqlCommand cat role statements w = some w') : Restored base [] w w' := by
  induction statements generalizing w with
  | nil =>
    cases h
    exact ⟨rfl, rfl, hsettled, (append_nil _).symm⟩
  | cons st _ ih =>
    obtain ⟨roleid, -, hrest⟩ := bind_eq_some_iff.mp h
    have hst : Settled base (executeStatement roleid st w).settings := by
      rw [settings_executeStatement]
      exact hsettled.run_level (hkeeps st mem_cons_self) []
    have hrestored := ih hst (fun st' hst' => hkeeps st' (mem_cons_of_mem _ hst')) hrest
    exact { hrestored with }

theorem settled_enter (h : Settled base w.settings) : Settled base (w.settings.enter []) := by
  refine ⟨h.value, fun l hl n e hn => ?_⟩
  rcases mem_cons.mp hl with rfl | hl
  · cases hn
  · exact h.levels l hl n e hn

theorem restored_step {e : Event} (hsettled : Settled base w.settings) (hcareful : Careful w e)
    (h : step cat w e = some w') :
    Restored base (e.lookedUp cat (base "search_path")).toList w w' := by
  cases e with
  | begin =>
    obtain ⟨-, rfl⟩ := of_guard h
    exact ⟨rfl, rfl, settled_enter hsettled, (append_nil _).symm⟩
  | message _ statements =>
    obtain ⟨-, hexec⟩ := ite_none_left_eq_some.mp h
    have hkeeps : ∀ st ∈ statements, st.effect.Keeps base := by
      rw [← hsettled.value]
      exact hcareful
    exact restored_spockExecuteSqlCommand hsettled hkeeps hexec
  | change =>
    obtain ⟨-, heq⟩ := ite_none_left_eq_some.mp h
    cases heq
    refine ⟨rfl, rfl, hsettled, ?_⟩
    rw [← hsettled.value]
    rfl
  | commit =>
    obtain ⟨-, heq⟩ := ite_none_left_eq_some.mp h
    cases heq
    exact ⟨rfl, rfl, hsettled.commit, (append_nil _).symm⟩
  | abort =>
    obtain ⟨-, heq⟩ := ite_none_left_eq_some.mp h
    cases heq
    exact ⟨rfl, rfl, hsettled.abort, (append_nil _).symm⟩

/-- **What messages leave behind.** A worker outside of a transaction executes messages and applies
row changes in any transactions. If the plain SETs in the messages assign the values in force, then
at every moment its user, its security context and all settings are those it had at first, and each
row change has found the delta function it finds under the first search path. -/
theorem settings_restored {events : List Event} (hidle : w.settings.levels = [])
    (hcareful : Along (step cat) Careful w events) (hrun : run (step cat) w events = some w') :
    w'.userid = w.userid ∧ w'.secContext = w.secContext ∧ w'.settings.value = w.settings.value ∧
      w'.lookups = w.lookups ++
        events.filterMap (·.lookedUp cat (w.settings.value "search_path")) := by
  have hstart : Settled w.settings.value w.settings :=
    ⟨rfl, fun l hl => by rw [hidle] at hl; cases hl⟩
  generalize w.settings.value = base at hstart ⊢
  clear hidle
  induction events generalizing w with
  | nil =>
    cases hrun
    exact ⟨rfl, rfl, hstart.value, (append_nil _).symm⟩
  | cons e _ ih =>
    obtain ⟨w₁, hw₁, hrest⟩ := run_cons_eq_some.mp hrun
    have hstep := restored_step hstart hcareful.1 hw₁
    obtain ⟨huserid, hsec, hvalue, hlookups⟩ := ih (hcareful.2 w₁ hw₁) hrest hstep.settled
    refine ⟨huserid.trans hstep.userid, hsec.trans hstep.secContext, hvalue, ?_⟩
    rw [hlookups, hstep.lookups, append_assoc, filterMap_cons]
    cases e.lookedUp cat (base "search_path") <;> rfl

/-! ## A search path that stays -/

/-- Two schemas with a function `delta` each. -/
def sampleCatalog : Catalog where
  getRoleOid role := if role = "u" then some 10 else none
  fetchSearchPath path := if path = "app" then ["app"] else ["public"]
  functions := [⟨"public", "delta", 23, 100⟩, ⟨"app", "delta", 23, 200⟩]

def sampleWorker : Worker := ⟨1, 0, ⟨fun _ => "public", []⟩, []⟩

/-- A message that sets the path to what it is, sets it locally, calls a function that has its own,
and gives up a subtransaction that has set it. -/
def carefulEvents : List Event :=
  [.begin, .message "u" [setSearchPath id ["public"],
      ⟨.seq (.assign true "search_path" "app") (.level true [("search_path", "app")] .nothing), id⟩,
      ⟨.level false [] (.assign false "search_path" "app"), fun _ => (0, 0)⟩],
    .change none "delta" 23, .commit, .begin, .change none "delta" 23]

theorem settings_restored_carefulEvents :
    ∃ w', run (step sampleCatalog) sampleWorker carefulEvents = some w' ∧
      w'.userid = 1 ∧ w'.settings.value "search_path" = "public" ∧
      w'.lookups = [some 100, some 100] := by
  have hcareful : Along (step sampleCatalog) Careful sampleWorker carefulEvents := by
    decide +kernel
  have hrun : run (step sampleCatalog) sampleWorker carefulEvents = some _ := rfl
  obtain ⟨huserid, -, hvalue, hlookups⟩ := settings_restored rfl hcareful hrun
  exact ⟨_, hrun, huserid, congrFun hvalue "search_path", hlookups⟩

/-- **The search path of a message stays in force**, after the message and after the commit: a row
change of the next transaction finds another delta function than it does without the message. -/
theorem searchPath_leaks :
    ((run (step sampleCatalog) sampleWorker
        [.begin, .message "u" [setSearchPath id ["app"], ⟨.nothing, id⟩]]).map
      (·.settings.value "search_path")) = some "app" ∧
    ((run (step sampleCatalog) sampleWorker
        [.begin, .message "u" [setSearchPath id ["app"], ⟨.nothing, id⟩], .commit, .begin,
          .change none "delta" 23]).map
      fun w => (w.settings.value "search_path", w.lookups)) = some ("app", [some 200]) ∧
    ((run (step sampleCatalog) sampleWorker [.begin, .commit, .begin, .change none "delta" 23]).map
      fun w => (w.settings.value "search_path", w.lookups)) = some ("public", [some 100]) := by
  decide +kernel

end Spock.SqlCommand
