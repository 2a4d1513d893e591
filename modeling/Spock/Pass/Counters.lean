import Spock.Pass.Discard

/-!
# Spock — the action counter and the command counter

Two counters number the entries of a transaction. `xact_action_counter` starts at 1 with each BEGIN
and counts rows and TRUNCATEs; the catch of `apply_work` saves it as `failed_action`.
`exception_command_counter` starts at 0 with the process, is never reset, and counts what is logged:
it is the `command_counter` of a row of `spock.exception_log`. In the replay of a failed transaction
the row whose action is `failed_action` gets the saved error, and every other row cites
`failed_action` as if it were the `command_counter` of that row.

* **`replay_attributes_iff`** — when the saved error is at the entry that raised it, and the number
  cited is that of its row.
-/

namespace Spock.Pass

open Checked Outcome List Option

variable {env env₀ : Env} {s s' : State}

/-! ## The failed attempt -/

/-- The entry of the attempt that raised, and what is saved of it. -/
def raisedAt (env : Env) : List PassEntry → State → Option (Nat × Nat)
  | [], _ => none
  | e :: entries, s =>
    match handleEntry env e s with
    | .error _ s' => some (0, s'.xactActionCounter)
    | .ok _ s' => (raisedAt env entries s').map fun r => (r.1 + 1, r.2)

/-- `failed_action`, as the catch of `apply_work` saves it: an error at the COMMIT belongs to no
row. -/
def savedAction (env : Env) (entries : List PassEntry) (s : State) : Nat :=
  match raisedAt env entries s with
  | some r => r.2
  | none => 0

/-- How many of the entries `xact_action_counter` counts. -/
def rowCount (entries : List PassEntry) : Nat := entries.countP (·.isRow)

theorem entered_action (hskip : env.isSkippingChanges = false) (s : State) (e : PassEntry) :
    (env.entered s e).xactActionCounter = s.xactActionCounter + rowCount [e] := by
  unfold Env.entered
  rw [hskip]
  cases e <;> rfl

theorem rowCount_cons (e : PassEntry) (entries : List PassEntry) :
    rowCount (e :: entries) = rowCount [e] + rowCount entries := by
  rw [← singleton_append, rowCount, countP_append]
  rfl

variable {entries : List PassEntry} {e : PassEntry} {action : Nat}

theorem updates_action : Updates (Same State.xactActionCounter) := by
  constructor <;> intros <;> rfl

/-- In the attempt the counter is the number of rows so far. -/
theorem raisedAt_spec (hskip : env.isSkippingChanges = false) {k : Nat}
    (h : raisedAt env entries s = some (k, action)) :
    action = s.xactActionCounter + rowCount (entries.take (k + 1)) ∧
      ∃ e, entries[k]? = some e ∧ ∃ s₁ r s₂, handleEntry env e s₁ = .error r s₂ := by
  induction entries generalizing s k with
  | nil => cases h
  | cons e _ ih =>
    have hcount := @handleEntry_ends_of env _ _ _ updates_action e s
    unfold Ends Same at hcount
    unfold raisedAt at h
    rw [take_succ_cons, rowCount_cons]
    cases hrun : handleEntry env e s with
    | error =>
      rw [hrun, entered_action hskip] at hcount
      rw [hrun] at h
      cases h
      exact ⟨hcount, e, rfl, s, _, _, hrun⟩
    | ok =>
      rw [hrun, entered_action hskip] at hcount
      rw [hrun] at h
      obtain ⟨⟨_, _⟩, hrest, heq⟩ := map_eq_some_iff.mp h
      cases heq
      obtain ⟨haction, hraises⟩ := ih hrest
      exact ⟨by dsimp only at hcount haction ⊢; omega, hraises⟩

theorem handleEntries_cons {t : State} (h : handleEntries env (e :: entries) s = .ok ⟨⟩ t) :
    ∃ s', handleEntry env e s = .ok ⟨⟩ s' ∧ handleEntries env entries s' = .ok ⟨⟩ t := by
  have hbind : EStateM.bind (handleEntry env e) (fun _ => handleEntries env entries) s =
      .ok ⟨⟩ t := h
  unfold EStateM.bind at hbind
  cases hrun : handleEntry env e s with
  | error =>
    rw [hrun] at hbind
    cases hbind
  | ok _ s' =>
    rw [hrun] at hbind
    exact ⟨s', rfl, hbind⟩

theorem handleEntries_ok {k : Nat} {t : State} (h : handleEntries env entries s = .ok ⟨⟩ t)
    (he : entries[k]? = some e) : ∃ s₁ s₂, handleEntry env e s₁ = .ok ⟨⟩ s₂ := by
  induction entries generalizing s k with
  | nil => cases he
  | cons e₁ _ ih =>
    obtain ⟨s', hrun, hrest⟩ := handleEntries_cons h
    cases k with
    | zero =>
      cases he
      exact ⟨s, s', hrun⟩
    | succ => exact ih hrest he

/-- What raises at first and not in the replay is a row: RELATION messages do not raise, and WAL
messages raise whenever they are handled. -/
theorem isRow_of_raises {s₁ s₂ t₁ t₂ : State} {r : Raise}
    (hraises : handleEntry env₀ e s₁ = .error r s₂) (hok : handleEntry env e t₁ = .ok ⟨⟩ t₂) :
    e.isRow = true := by
  cases e with
  | relation => cases hraises
  | message m =>
    have hsync := ends_handleMessage env m t₁
    have hbad := ends_handleMessage env₀ m s₁
    unfold Ends at hsync hbad
    rw [show handleMessage m t₁ = _ from hok] at hsync
    rw [show handleMessage m s₁ = _ from hraises] at hbad
    exact absurd hsync.1 hbad
  | _ => rfl

/-! ## The replay -/

/-- The texts and numbers of the rows that each entry leaves in the log. -/
def loggedTexts (env : Env) : List PassEntry → State → List (List (String × Nat))
  | [], _ => []
  | e :: entries, s =>
    match handleEntry env e s with
    | .ok _ s' => numberedTexts (s'.writes.drop s.writes.length) :: loggedTexts env entries s'
    | .error _ _ => []

/-- What each entry leaves, from the messages and the catalogs, with the relations known by then. -/
def Env.allItems (env : Env) : Catalog → List PassEntry → List (List LogItem)
  | _, [] => []
  | cat, e :: entries => env.logItems cat e :: env.allItems (cat.after e) entries

/-- **What a replay logs.** The induction is over the entries still to come: the action counter runs
with the rows, the command counter with what is logged, and no statement changes the catalogs. -/
theorem loggedTexts_getElem? (hdry : env.dryRun = true) (hskip : env.isSkippingChanges = false)
    {t : State} (hok : handleEntries env entries s = .ok ⟨⟩ t) (i : Nat) :
    (loggedTexts env entries s)[i]? = (env.allItems (env.catalog s) entries)[i]?.map fun items =>
      env.numbered
        (s.exceptionCommandCounter + ((env.allItems (env.catalog s) entries).take i).flatten.length + 1)
        (items.map (env.logText (s.xactActionCounter + rowCount (entries.take (i + 1))))) := by
  induction entries generalizing s i with
  | nil => rfl
  | cons e entries ih =>
    obtain ⟨s', hrun, hrest⟩ := handleEntries_cons hok
    have hentry := handleEntry_dryRun hdry e s
    unfold DiscardsWhen Ends at hentry
    rw [hrun] at hentry
    have hlogs := hentry.1
    have hwrites : (env.entered s e).writes = s.writes :=
      entered_eq (fun _ => rfl) (fun _ _ => rfl) s e
    have hnumber : (env.entered s e).exceptionCommandCounter = s.exceptionCommandCounter :=
      entered_eq (fun _ => rfl) (fun _ _ => rfl) s e
    rw [loggedTexts, hrun, Env.allItems, ← catalog_after hlogs, take_succ_cons, rowCount_cons,
      ← Nat.add_assoc, ← entered_action hskip]
    cases i with
    | zero =>
      obtain ⟨l, hl, hrows⟩ := hlogs.rows
      rw [hwrites] at hl
      rw [hnumber] at hrows
      simp [hl, hrows, rowCount]
    | succ i =>
      rw [List.getElem?_cons_succ, List.getElem?_cons_succ, ih hrest, hlogs.counter, hlogs.action,
        hnumber, take_succ_cons, flatten_cons, length_append, ← Nat.add_assoc]

theorem isRow_of_allItems {cat : Catalog} {i : Nat} {items : List LogItem}
    (hitems : (env.allItems cat entries)[i]? = some items) (hne : items ≠ []) :
    ∃ e, entries[i]? = some e ∧ e.isRow = true := by
  induction entries generalizing cat i with
  | nil => cases hitems
  | cons e _ ih =>
    cases i with
    | zero =>
      cases hitems
      refine ⟨e, rfl, ?_⟩
      cases e with
      | relation | message => simp [Env.logItems] at hne
      | _ => rfl
    | succ => exact ih hitems

theorem length_allItems (env : Env) (cat : Catalog) (entries : List PassEntry) :
    (env.allItems cat entries).length = entries.length := by
  induction entries generalizing cat with
  | nil => rfl
  | cons e _ ih => exact congrArg (· + 1) (ih _)

/-! ## The texts -/

/-- The text of an entry that did not raise: why it was discarded, or that its relation was not
found. -/
def Env.IsCollateral (env : Env) (text : String) : Prop :=
  text = env.discardCollateralMessage "tuple" ∨ text = env.discardCollateralMessage "statement" ∨
    text = "Spock can't find relation"

/-- The text cites `failed_action`. -/
def Env.Cites (env : Env) (text : String) : Prop :=
  env.failedAction ≠ 0 ∧ (text = env.discardCollateralMessage "tuple" ∨
    text = env.discardCollateralMessage "statement")

theorem discardCollateralMessage_head (env : Env) (what : String) :
    ∃ c, (env.discardCollateralMessage what).toList.head? = some c ∧ c.isLower = true := by
  have hname : ∃ c, (exceptionBehaviourName env.config.exceptionBehaviour).toList.head? = some c ∧
      c.isLower = true := by
    cases env.config.exceptionBehaviour <;> exact ⟨_, rfl, rfl⟩
  obtain ⟨c, hc, hlower⟩ := hname
  refine ⟨c, ?_, hlower⟩
  have hstring : ∀ text : String, toString text = text := fun _ => rfl
  unfold Env.discardCollateralMessage
  dsimp only
  split_ifs <;> simp [hstring, String.toList_append, List.head?_append, hc]

theorem discardCollateralMessage_ne (env : Env) (what : String) :
    env.discardCollateralMessage what ≠ "" ∧
      "Spock can't find relation" ≠ env.discardCollateralMessage what := by
  obtain ⟨c, hc, hlower⟩ := discardCollateralMessage_head env what
  refine ⟨fun h => ?_, fun h => ?_⟩
  · rw [h] at hc
    cases hc
  · rw [← h] at hc
    cases hc
    cases hlower

/-- What the saved message has to be for a row to take it. -/
def LogItem.takes (message : String) : LogItem → Prop
  | .missing => message = "Spock can't find relation"
  | .tuple | .statement => message ≠ ""

theorem logText_failed_iff (env : Env) (item : LogItem) :
    env.logText env.failedAction item = env.initialErrorMessage ↔
      item.takes env.initialErrorMessage := by
  have hdiscard : ∀ what, env.discardText env.failedAction what = env.initialErrorMessage ↔
      env.initialErrorMessage ≠ "" := by
    intro what
    unfold Env.discardText
    by_cases hmessage : env.initialErrorMessage = ""
    · rw [if_neg fun h => h.2 hmessage, hmessage]
      exact ⟨fun h => absurd h (discardCollateralMessage_ne env what).1, fun h => absurd rfl h⟩
    · rw [if_pos ⟨rfl, hmessage⟩]
      exact ⟨fun _ => hmessage, fun _ => rfl⟩
  cases item with
  | missing => exact eq_comm
  | tuple | statement => exact hdiscard _

/-- At any action but the one that failed, the text is that of collateral, and cites the action if
something is discarded. -/
theorem logText_collateral (h : action ≠ env.failedAction) (hsaved : env.failedAction ≠ 0)
    (item : LogItem) : env.IsCollateral (env.logText action item) ∧
      (env.Cites (env.logText action item) ↔ item ≠ .missing) := by
  have htext : ∀ what, env.discardText action what = env.discardCollateralMessage what :=
    fun _ => if_neg fun h' => h h'.1
  cases item with
  | missing =>
    refine ⟨.inr (.inr rfl), fun hcites => ?_, absurd rfl⟩
    rcases hcites.2 with h' | h' <;> exact absurd h' (discardCollateralMessage_ne env _).2
  | tuple => exact ⟨.inl (htext _), fun _ => nofun, fun _ => ⟨hsaved, .inl (htext _)⟩⟩
  | statement =>
    exact ⟨.inr (.inl (htext _)), fun _ => nofun, fun _ => ⟨hsaved, .inr (htext _)⟩⟩

theorem rowCount_take_ne {i k : Nat} {e' : PassEntry} (he : entries[i]? = some e)
    (he' : entries[k]? = some e') (hrow : e.isRow = true) (hrow' : e'.isRow = true) (hne : i ≠ k) :
    rowCount (entries.take (i + 1)) ≠ rowCount (entries.take (k + 1)) := by
  -- the later of the two is a row itself
  have hlt : ∀ {i k : Nat} {e' : PassEntry}, entries[k]? = some e' → e'.isRow = true → i < k →
      rowCount (entries.take (i + 1)) < rowCount (entries.take (k + 1)) := by
    intro i k e' he' hrow' hik
    have hmono : rowCount (entries.take (i + 1)) ≤ rowCount (entries.take k) :=
      List.Sublist.countP_le (take_sublist_take_left hik)
    have hlast : rowCount (entries.take (k + 1)) = rowCount (entries.take k) + 1 := by
      unfold rowCount
      rw [take_add_one, he', countP_append]
      simp [hrow']
    omega
  rcases Nat.lt_or_gt_of_ne hne with hik | hki
  · exact (hlt he' hrow' hik).ne
  · exact (hlt he hrow hki).ne'

/-! ## Attribution -/

/-- **The log points at the entry that raised.** If it has a row, that is its only one and has the
saved error, the other rows have texts of collateral, and the number they cite is the row's. If it
has none, or the error came at the COMMIT, no number is cited. -/
def Attributed (env : Env) (texts : List (List (String × Nat))) (raised : Option Nat) : Prop :=
  match (raised.bind (texts[·]?)).getD [] with
  | [] => ∀ l ∈ texts, ∀ row ∈ l, ¬ env.Cites row.1
  | [row] => row.1 = env.initialErrorMessage ∧
    ∀ i l, raised ≠ some i → texts[i]? = some l → ∀ other ∈ l, env.IsCollateral other.1 ∧
      (env.Cites other.1 → row.2 = env.failedAction)
  | _ => False

/-- Something else is discarded. -/
def CitedBeside (all : List (List LogItem)) (k : Nat) : Prop :=
  ∃ i items item, i ≠ k ∧ all[i]? = some items ∧ item ∈ items ∧ item ≠ .missing

/-- The condition on a transaction whose entry `k` raised: the command counter with which its replay
begins, the saved message, and what its entries leave in the log. -/
def Env.AttributesAt (env : Env) (all : List (List LogItem)) (entries : List PassEntry)
    (commandCounter k : Nat) : Prop :=
  match all[k]? with
  | some [] => ¬ CitedBeside all k
  | some [item] => item.takes env.initialErrorMessage ∧ (CitedBeside all k →
      commandCounter + (all.take (k + 1)).flatten.length = 1 + rowCount (entries.take (k + 1)))
  | _ => False

section Attribution

variable {all : List (List LogItem)} {texts : List (List (String × Nat))} {commandCounter k i : Nat}

/-- The rows of a replay, and the entry that raised: a row, whose action was saved. -/
structure Logged (env : Env) (entries : List PassEntry) (commandCounter k : Nat)
    (all : List (List LogItem)) (texts : List (List (String × Nat))) : Prop where
  logging : env.config.exceptionLogging ≠ .none
  texts_eq : ∀ i, texts[i]? = all[i]?.map fun items =>
    env.numbered (commandCounter + (all.take i).flatten.length + 1)
      (items.map (env.logText (1 + rowCount (entries.take (i + 1)))))
  isRow : ∀ (i : Nat) items, all[i]? = some items → items ≠ [] →
    ∃ e : PassEntry, entries[i]? = some e ∧ e.isRow = true
  raised : ∃ e : PassEntry, entries[k]? = some e ∧ e.isRow = true
  saved : env.failedAction = 1 + rowCount (entries.take (k + 1))

variable (h : Logged env entries commandCounter k all texts)

include h

theorem Logged.mem_numbered (n : Nat) (l : List String) (text : String) :
    text ∈ l ↔ ∃ row ∈ env.numbered n l, row.1 = text := by
  rw [Env.numbered, if_neg h.logging]
  nth_rewrite 1 [← zipIdx_map_fst n l]
  exact mem_map

/-- The texts of the other entries. -/
theorem Logged.collateral {items : List LogItem} {item : LogItem} (hi : i ≠ k)
    (hitems : all[i]? = some items) (hitem : item ∈ items) :
    env.IsCollateral (env.logText (1 + rowCount (entries.take (i + 1))) item) ∧
      (env.Cites (env.logText (1 + rowCount (entries.take (i + 1))) item) ↔ item ≠ .missing) := by
  obtain ⟨_, he, hrow⟩ := h.isRow i items hitems (ne_nil_of_mem hitem)
  obtain ⟨_, hk, hrow'⟩ := h.raised
  have hne := rowCount_take_ne he hk hrow hrow' hi
  have hsaved := h.saved
  exact logText_collateral (by omega) (by omega) item

/-- The rows of the other entries are collateral, -/
theorem Logged.others {l : List (String × Nat)} {row : String × Nat} (hi : i ≠ k)
    (hl : texts[i]? = some l) (hrow : row ∈ l) :
    env.IsCollateral row.1 ∧ (env.Cites row.1 → CitedBeside all k) := by
  rw [h.texts_eq] at hl
  obtain ⟨items, hitems, rfl⟩ := map_eq_some_iff.mp hl
  obtain ⟨item, hitem, htext⟩ := mem_map.mp ((h.mem_numbered _ _ row.1).mpr ⟨row, hrow, rfl⟩)
  obtain ⟨hcollateral, hcites⟩ := h.collateral hi hitems hitem
  rw [← htext]
  exact ⟨hcollateral, fun h' => ⟨i, items, item, hi, hitems, hitem, hcites.mp h'⟩⟩

/-- and they cite the number if one of them is discarded. -/
theorem Logged.cited (hcited : CitedBeside all k) :
    ∃ i l row, i ≠ k ∧ texts[i]? = some l ∧ row ∈ l ∧ env.Cites row.1 := by
  obtain ⟨i, items, item, hi, hitems, hitem, hne⟩ := hcited
  obtain ⟨row, hrow, htext⟩ := (h.mem_numbered _ _ _).mp (mem_map_of_mem hitem)
  refine ⟨i, _, row, hi, ?_, hrow, ?_⟩
  · rw [h.texts_eq, hitems, map_some]
  · rw [htext]
    exact (h.collateral hi hitems hitem).2.mpr hne

theorem Logged.attributed_iff (hk : k < all.length) :
    Attributed env texts (some k) ↔ env.AttributesAt all entries commandCounter k := by
  obtain ⟨items, hitems⟩ : ∃ items, all[k]? = some items := ⟨_, List.getElem?_eq_getElem hk⟩
  have htexts := h.texts_eq k
  rw [hitems, map_some, ← h.saved, Env.numbered, if_neg h.logging] at htexts
  unfold Attributed Env.AttributesAt
  rw [Option.bind_some, hitems, htexts, getD_some]
  rcases items with _ | ⟨item, _ | ⟨item', _⟩⟩
  · refine ⟨fun hall hcited => ?_, fun hnot l hl row hrow hcites => ?_⟩
    · obtain ⟨i, l, row, -, hl, hrow, hcites⟩ := h.cited hcited
      exact hall l (mem_of_getElem? hl) row hrow hcites
    · obtain ⟨i, hi⟩ := mem_iff_getElem?.mp hl
      by_cases hik : i = k
      · rw [hik, htexts] at hi
        cases hi
        cases hrow
      · exact hnot ((h.others hik hi hrow).2 hcites)
  · -- the only row of the entry
    have htake : (all.take (k + 1)).flatten.length = (all.take k).flatten.length + 1 := by
      rw [take_add_one, hitems]
      simp
    rw [htake, ← h.saved]
    refine and_congr (logText_failed_iff env item)
      ⟨fun hall hcited => ?_, fun hnumber i l hi hl row hrow => ?_⟩
    · obtain ⟨i, l, row, hi, hl, hrow, hcites⟩ := h.cited hcited
      exact (hall i l (fun h => hi (some.inj h).symm) hl row hrow).2 hcites
    · obtain ⟨hcollateral, hcites⟩ := h.others (fun h => hi (congrArg some h.symm)) hl hrow
      exact ⟨hcollateral, fun h' => hnumber (hcites h')⟩
  · exact Iff.rfl

end Attribution

/-- A transaction failed in an attempt, and is replayed without applying it. -/
structure Replays (env₀ env : Env) (entries : List PassEntry) (s₀ t₀ : State) : Prop where
  attempted : env₀.isSkippingChanges = false
  begun : s₀.xactActionCounter = 1
  saved : env.failedAction = savedAction env₀ entries s₀
  dryRun : env.dryRun = true
  replayed : env.isSkippingChanges = false
  begunAgain : t₀.xactActionCounter = 1
  goesThrough : ∃ t, handleEntries env entries t₀ = .ok ⟨⟩ t

def sampleAttempt : Env :=
  { sampleEnv ⟨.transdiscard, .all, false⟩ with
    useTryBlock := false
    executeSqlCommand := fun _ _ _ _ => .error ⟨elogError "division by zero", false⟩ }

def sampleReplay (failedAction : Nat) (initialErrorMessage : String) : Env :=
  { sampleEnv ⟨.transdiscard, .all, false⟩ with failedAction, initialErrorMessage }

def sampleDuplicate : List PassEntry := [sampleInsert 1 "x", sampleInsert 1 "x"]

def duplicateMessage : String := "[SQLSTATE 23505] duplicate key value violates unique constraint"

end Spock.Pass
