import Spock.Lib.Runs

/-!
# Spock — connection strings

`spk_get_connstr` takes a connection string apart with libpq, puts a database name and options in
place of those it has, and prints the parameters again. A value is quoted if it has a byte other
than letters, digits, `_` and `.`, so an empty one is not. But the grammar skips blanks after `=`.

* **`Libpq.reparsed_iff`** — when the string parses to the parameters it was built from.
-/

namespace Spock

open Runs Function List

abbrev Text := List UInt8

abbrev Params (K : Type) := K → Option Text

def isPlain (b : UInt8) : Bool :=
  (97 ≤ b && b ≤ 122) || (65 ≤ b && b ≤ 90) || (48 ≤ b && b ≤ 57) || b == 95 || b == 46

/-- `PQconninfoOptions`, and the parser of URIs. -/
structure Libpq (K : Type) where
  keywords : List K
  word : K → Text
  /-- `conninfo_find`. -/
  find : Text → Option K
  dbname : K
  options : K
  parseUri : Text → Option (Params K)
  mem_keywords : ∀ k, k ∈ keywords
  word_ne_nil : ∀ k, word k ≠ []
  word_plain : ∀ k, ∀ b ∈ word k, isPlain b
  find_word : ∀ k, find (word k) = some k
  dbname_ne_options : dbname ≠ options

namespace Libpq

variable {K : Type} [DecidableEq K] (pq : Libpq K)

/-! ## The grammar -/

/-- `isspace`. -/
def isSpace (b : UInt8) : Bool := b == 32 || (9 ≤ b && b ≤ 13)

/-- Where `conninfo_parse` is in the string. A backslash is before the next byte if `escaped`. -/
inductive Phase where
  | blank
  | name (pname : Text)
  | nameEnd (pname : Text)
  | equals (pname : Text)
  | value (pname pval : Text) (quoted escaped : Bool)

structure Scan (K : Type) where
  params : Params K
  phase : Phase

/-- `conninfo_storeval`; an unknown keyword is an error. -/
def store (params : Params K) (pname pval : Text) : Option (Params K) :=
  (pq.find pname).map fun k => update params k (some pval)

def scan (s : Scan K) (b : UInt8) : Option (Scan K) :=
  match s.phase with
  | .blank => some ⟨s.params, if isSpace b then .blank else if b = 61 then .equals [] else .name [b]⟩
  | .name pname =>
    some ⟨s.params, if b = 61 then .equals pname else if isSpace b then .nameEnd pname
      else .name (pname ++ [b])⟩
  | .nameEnd pname =>
    if isSpace b then some s else if b = 61 then some ⟨s.params, .equals pname⟩ else none
  | .equals pname =>
    some ⟨s.params, if isSpace b then .equals pname else if b = 39 then .value pname [] true false
      else if b = 92 then .value pname [] false true else .value pname [b] false false⟩
  | .value pname pval quoted false =>
    if (if quoted then b == 39 else isSpace b) then (pq.store s.params pname pval).map (⟨·, .blank⟩)
    else some ⟨s.params, if b = 92 then .value pname pval quoted true
      else .value pname (pval ++ [b]) quoted false⟩
  | .value pname pval quoted true => some ⟨s.params, .value pname (pval ++ [b]) quoted false⟩

/-- The end of the string: an `=` or a quote may be missing. -/
def finish (s : Scan K) : Option (Params K) :=
  match s.phase with
  | .blank => some s.params
  | .equals pname => pq.store s.params pname []
  | .value pname pval false _ => pq.store s.params pname pval
  | .name _ | .nameEnd _ | .value _ _ true _ => none

/-- `conninfo_parse`, with the parameters that there are already. -/
def parseFrom (params : Params K) (s : Text) : Option (Params K) :=
  (run pq.scan ⟨params, .blank⟩ s).bind pq.finish

/-- The grammar of connection strings, as a machine over bytes. -/
def conninfoParse (s : Text) : Option (Params K) := pq.parseFrom (fun _ => none) s

/-- `postgresql://` and `postgres://`. -/
def isUri (s : Text) : Bool :=
  [112, 111, 115, 116, 103, 114, 101, 115, 113, 108, 58, 47, 47].isPrefixOf s ||
    [112, 111, 115, 116, 103, 114, 101, 115, 58, 47, 47].isPrefixOf s

/-- `PQconninfoParse`. -/
def parse (s : Text) : Option (Params K) := if isUri s then pq.parseUri s else pq.conninfoParse s

/-! ## The printer -/

def escape (b : UInt8) : Text := if b = 39 ∨ b = 92 then [92, b] else [b]

/-- `appendPQExpBufferConnstrValue`. -/
def connstrValue (v : Text) : Text :=
  if v.all isPlain then v else 39 :: (v.flatMap escape ++ [39])

/-- `PQconninfoParamsToConnstr`. -/
def paramsToConnstr : List (K × Text) → Text
  | [] => []
  | [(k, v)] => pq.word k ++ 61 :: connstrValue v
  | (k, v) :: q :: params => pq.word k ++ 61 :: (connstrValue v ++ 32 :: paramsToConnstr (q :: params))

def taken (conninfo : Params K) (dbname : Option Text) : Params K := fun k =>
  if dbname.isSome ∧ k = pq.dbname then none else (conninfo k).filter (· ≠ [])

def entries (params : Params K) : List (K × Text) :=
  pq.keywords.filterMap fun k => (params k).map (k, ·)

def overrides (dbname options : Option Text) : List (K × Text) :=
  dbname.toList.map (pq.dbname, ·) ++ options.toList.map (pq.options, ·)

def isConnstr (connstr : Text) : Bool := isUri connstr || connstr.contains 61

/-- `spk_get_connstr`. -/
def getConnstr (connstr dbname options : Option Text) : Option Text :=
  match connstr.filter isConnstr with
  | some connstr => (pq.parse connstr).map fun conninfo =>
      pq.paramsToConnstr (pq.entries (pq.taken conninfo dbname) ++ pq.overrides dbname options)
  | none => some (pq.paramsToConnstr (pq.overrides (dbname <|> connstr) options))

def override (dbname options : Option Text) : Params K := fun k =>
  (if k = pq.options then options else none) <|> if k = pq.dbname then dbname else none

def replaced (conninfo : Params K) (dbname options : Option Text) : Params K := fun k =>
  pq.override dbname options k <|> conninfo k

/-! ## Values -/

section

variable {pq} {params params' conninfo : Params K} {pname pval v connstr : Text} {b : UInt8}
  {dbname options : Option Text} {s s' : Scan K}

theorem isPlain_spec (h : isPlain b) : isSpace b = false ∧ b ≠ 61 ∧ b ≠ 39 ∧ b ≠ 92 := by
  grind [isPlain, isSpace]

theorem run_quoted (acc v : Text) :
    run pq.scan ⟨params, .value pname acc true false⟩ (v.flatMap escape) =
      some ⟨params, .value pname (acc ++ v) true false⟩ := by
  rw [run_flatMap]
  refine run_collect (P := fun _ => True) (φ := fun acc => Scan.mk params (.value pname acc true false))
    (fun acc b _ => ?_) acc fun _ _ => trivial
  unfold escape
  split
  · rename_i hescape
    rcases hescape with rfl | rfl <;> rfl
  · rename_i hescape
    simp [scan, not_or.1 hescape]

theorem run_plain (acc : Text) (hv : ∀ b ∈ v, isPlain b) :
    run pq.scan ⟨params, .value pname acc false false⟩ v =
      some ⟨params, .value pname (acc ++ v) false false⟩ := by
  refine run_collect (φ := fun acc => Scan.mk params (.value pname acc false false))
    (fun acc b hb => ?_) acc hv
  simp [scan, isPlain_spec hb]

theorem run_equals (hne : v ≠ []) (hv : ∀ b ∈ v, isPlain b) :
    run pq.scan ⟨params, .equals pname⟩ v = some ⟨params, .value pname v false false⟩ := by
  cases v with
  | nil => exact absurd rfl hne
  | cons b v =>
    obtain ⟨hb, hv⟩ := forall_mem_cons.1 hv
    have hscan : pq.scan ⟨params, .equals pname⟩ b = some ⟨params, .value pname [b] false false⟩ := by
      simp [scan, isPlain_spec hb]
    rw [run_cons, hscan]
    exact run_plain [b] hv

theorem run_word (k : K) (rest : Text) : run pq.scan ⟨params, .blank⟩ (pq.word k ++ 61 :: rest) =
    run pq.scan ⟨params, .equals (pq.word k)⟩ rest := by
  have hplain := pq.word_plain k
  cases hword : pq.word k with
  | nil => exact absurd hword (pq.word_ne_nil k)
  | cons b w =>
    rw [hword] at hplain
    obtain ⟨hb, hw⟩ := forall_mem_cons.1 hplain
    have hblank : pq.scan ⟨params, .blank⟩ b = some ⟨params, .name [b]⟩ := by
      simp [scan, isPlain_spec hb]
    have hname : run pq.scan ⟨params, .name [b]⟩ w = some ⟨params, .name ([b] ++ w)⟩ := by
      refine run_collect (φ := fun acc => Scan.mk params (.name acc)) (fun acc b hb => ?_) [b] hw
      simp [scan, isPlain_spec hb]
    rw [cons_append, run_cons, hblank, Option.bind_some, run_append, hname]
    rfl

/-- **A printed parameter** is read at the end of the string, and before a blank unless its value is
empty. -/
theorem run_param (k : K) (v : Text) :
    ∃ s, run pq.scan ⟨params, .blank⟩ (pq.word k ++ 61 :: connstrValue v) = some s ∧
      pq.finish s = some (update params k (some v)) ∧
      (v ≠ [] → pq.scan s 32 = some ⟨update params k (some v), .blank⟩) := by
  have hstore : pq.store params (pq.word k) v = some (update params k (some v)) := by
    rw [store, pq.find_word, Option.map_some]
  rw [run_word]
  unfold connstrValue
  by_cases hplain : v.all isPlain
  · rw [if_pos hplain]
    by_cases hne : v = []
    · subst hne
      exact ⟨_, rfl, hstore, absurd rfl⟩
    · exact ⟨_, run_equals hne (by simpa using hplain), hstore, fun _ => by simp [scan, isSpace, hstore]⟩
  · rw [if_neg hplain]
    refine ⟨⟨update params k (some v), .blank⟩, ?_, rfl, fun _ => rfl⟩
    have hopen : pq.scan ⟨params, .equals (pq.word k)⟩ 39 =
      some ⟨params, .value (pq.word k) [] true false⟩ := rfl
    rw [run_cons, hopen, Option.bind_some, run_append, run_quoted]
    simp [scan, hstore]

def assign (params : Params K) (q : K × Text) : Params K := update params q.1 (some q.2)

theorem parseFrom_last (q : K × Text) :
    pq.parseFrom params (pq.paramsToConnstr [q]) = some (assign params q) := by
  obtain ⟨s, hrun, hfinish, -⟩ := @run_param K _ pq params q.1 q.2
  rw [parseFrom, paramsToConnstr, hrun]
  exact hfinish

/-- **Printed parameters** are read one after the other, if none is empty. -/
theorem parseFrom_append {l : List (K × Text)} (h : ∀ q ∈ l, q.2 ≠ []) (l' : List (K × Text)) :
    pq.parseFrom params (pq.paramsToConnstr (l ++ l')) =
      pq.parseFrom (l.foldl assign params) (pq.paramsToConnstr l') := by
  induction l generalizing params with
  | nil => rfl
  | cons q l ih =>
    obtain ⟨hq, hl⟩ := forall_mem_cons.1 h
    obtain ⟨s, hrun, -, hblank⟩ := @run_param K _ pq params q.1 q.2
    rw [foldl_cons, ← ih hl, cons_append]
    cases l ++ l' with
    | nil => exact parseFrom_last q
    | cons q l =>
      rw [parseFrom, paramsToConnstr, ← cons_append, ← append_assoc, run_append, hrun,
        Option.bind_some, run_cons, hblank hq]
      rfl

/-! ## The parameters -/

theorem foldl_overrides :
    (pq.overrides dbname options).foldl assign params = pq.replaced params dbname options := by
  funext k
  cases dbname <;> cases options <;>
    simp only [overrides, replaced, override, assign, Option.toList, map_nil, map_cons, nil_append,
      singleton_append, foldl_nil, foldl_cons, update_apply] <;> split_ifs <;> rfl

theorem foldl_entries : (pq.entries params).foldl assign (fun _ => none) = params := by
  have hfold : ∀ (ks : List K) (params' : Params K) (k : K),
      (ks.filterMap fun k => (params k).map (k, ·)).foldl assign params' k =
        if k ∈ ks then params k <|> params' k else params' k := by
    intro ks
    induction ks with
    | nil => exact fun _ _ => rfl
    | cons k' ks ih =>
      intro params' k
      rw [filterMap_cons]
      by_cases hk : k = k' <;> cases hk' : params k' <;> simp [ih, hk, hk', assign]
  funext k
  rw [entries, hfold, if_pos (pq.mem_keywords k)]
  cases params k <;> rfl

theorem entries_ne_nil {q : K × Text} (hq : q ∈ pq.entries (pq.taken conninfo dbname)) : q.2 ≠ [] := by
  obtain ⟨k, -, hk⟩ := mem_filterMap.1 hq
  obtain ⟨v, hv, rfl⟩ := Option.map_eq_some_iff.1 hk
  unfold taken at hv
  split_ifs at hv
  simpa using (Option.filter_eq_some_iff.1 hv).2

/-! ## The round trip -/

theorem parseFrom_overrides (hlast : dbname = some [] → options = none) :
    pq.parseFrom params (pq.paramsToConnstr (pq.overrides dbname options)) =
      some (pq.replaced params dbname options) := by
  rw [← foldl_overrides]
  match dbname, options with
  | none, none => rfl
  | none, some _ | some _, none => exact parseFrom_last _
  | some v, some w =>
    have hne : ∀ q ∈ [(pq.dbname, v)], q.2 ≠ [] := by
      simpa using fun hv => nomatch hlast (congrArg some hv)
    exact (parseFrom_append hne [(pq.options, w)]).trans (parseFrom_last _)

theorem replaced_taken_iff : pq.replaced (pq.taken conninfo dbname) dbname options =
    pq.replaced conninfo dbname options ↔
      ∀ k, pq.override dbname options k = none → conninfo k ≠ some [] := by
  rw [funext_iff]
  refine forall_congr' fun k => ?_
  unfold replaced
  cases hk : pq.override dbname options k with
  | some => simp
  | none =>
    have hdbname : ¬ (dbname.isSome ∧ k = pq.dbname) := by
      rintro ⟨hsome, rfl⟩
      simp [override, pq.dbname_ne_options] at hk
      simp [hk] at hsome
    rw [taken, if_neg hdbname]
    rcases conninfo k with _ | _ | _ <;> simp

/-! ### An empty name before the options

Nothing is printed for the empty name, so that what follows is read as its value. The bytes of the
options never make an empty value: a quote in them is behind a backslash, and the quote at their end
is not closed. -/

/-- No empty value is about to be stored, and the database name is not empty, or is being read. -/
structure Swallowed (pq : Libpq K) (s : Scan K) : Prop where
  value : ∀ {pname pval quoted}, s.phase = .value pname pval quoted false → pval ≠ []
  dbname : (∃ v, v ≠ [] ∧ s.params pq.dbname = some v) ∨
    ∃ pval escaped, s.phase = .value (pq.word pq.dbname) pval false escaped

theorem Swallowed.store (h : pq.Swallowed s) {quoted escaped : Bool}
    (hphase : s.phase = .value pname pval quoted escaped) (hpval : pval ≠ [])
    (hstore : pq.store s.params pname pval = some params) :
    ∃ v, v ≠ [] ∧ params pq.dbname = some v := by
  obtain ⟨k, hk, rfl⟩ := Option.map_eq_some_iff.1 hstore
  by_cases hdbname : k = pq.dbname
  · exact ⟨pval, hpval, by rw [hdbname, update_self]⟩
  · rcases h.dbname with ⟨v, hv, heq⟩ | ⟨pval', escaped', hread⟩
    · exact ⟨v, hv, by rwa [update_of_ne (Ne.symm hdbname)]⟩
    · -- the value that is read is that of the database name
      obtain ⟨rfl, -⟩ := Phase.value.inj (hphase.symm.trans hread)
      rw [pq.find_word] at hk
      exact absurd (Option.some_inj.1 hk).symm hdbname

/-- One byte, which is not the quote that opens a value. -/
theorem Swallowed.scan (h : pq.Swallowed s) (hopen : b = 39 → ∀ pname, s.phase ≠ .equals pname)
    (hs' : pq.scan s b = some s') : pq.Swallowed s' := by
  obtain ⟨params, phase⟩ := s
  cases phase with
  | blank | name | equals =>
    cases hs'
    refine ⟨?_, .inl (h.dbname.resolve_right ?_)⟩ <;> grind
  | nameEnd =>
    simp only [Libpq.scan] at hs'
    have hdbname := h.dbname.resolve_right (by simp)
    refine ⟨?_, .inl ?_⟩ <;> grind
  | value pname pval quoted escaped =>
    cases escaped with
    | true =>
      cases hs'
      refine ⟨by simp, h.dbname.imp_right ?_⟩
      grind
    | false =>
      simp only [Libpq.scan] at hs'
      by_cases hend : (if quoted then b == 39 else isSpace b) = true
      · rw [if_pos hend] at hs'
        obtain ⟨params', hstore, rfl⟩ := Option.map_eq_some_iff.1 hs'
        exact ⟨by simp, .inl (h.store rfl (h.value rfl) hstore)⟩
      · rw [if_neg hend] at hs'
        cases hs'
        refine ⟨?_, h.dbname.imp_right ?_⟩
        · by_cases hb : b = 92
          · simp [hb]
          · intro heq
            simp only [hb, if_false, Phase.value.injEq] at heq
            simp [← heq.2.1]
        · grind

theorem scan_backslash (hs' : pq.scan s 92 = some s') (pname : Text) : s'.phase ≠ .equals pname := by
  obtain ⟨params, phase⟩ := s
  cases phase with
  | value pname pval quoted escaped =>
    cases quoted <;> cases escaped <;> cases hs' <;> exact nofun
  | nameEnd => cases hs'
  | blank | name | equals =>
    cases hs'
    exact nofun

theorem Swallowed.run_escape (h : pq.Swallowed s) (hs' : run pq.scan s (escape b) = some s') :
    pq.Swallowed s' := by
  unfold escape at hs'
  split at hs'
  · obtain ⟨s₁, hs₁, hrest⟩ := run_cons_eq_some.1 hs'
    obtain ⟨_, hs₂, ⟨⟩⟩ := run_cons_eq_some.1 hrest
    exact (h.scan (by simp) hs₁).scan (fun _ => scan_backslash hs₁) hs₂
  · obtain ⟨_, hs₁, ⟨⟩⟩ := run_cons_eq_some.1 hs'
    exact h.scan (by grind) hs₁

/-- The quote at the end of the options is the last byte. -/
theorem Swallowed.finish (h : pq.Swallowed s) (hs' : pq.scan s 39 = some s')
    (hfinish : pq.finish s' = some params) : ∃ v, v ≠ [] ∧ params pq.dbname = some v := by
  have hnext := fun hopen => h.scan (fun _ => hopen) hs'
  obtain ⟨params₀, phase⟩ := s
  cases phase with
  | blank | name | equals =>
    cases hs'
    cases hfinish
  | nameEnd => cases hs'
  | value pname pval quoted escaped =>
    have hs'' := hnext (by simp)
    cases quoted <;> cases escaped
    · cases hs'
      exact hs''.store rfl (by simp) hfinish
    · cases hs'
      exact hs''.store rfl (by simp) hfinish
    · obtain ⟨params', -, rfl⟩ := Option.map_eq_some_iff.1 hs'
      cases hfinish
      exact hs''.dbname.resolve_right (by simp)
    · cases hs'
      cases hfinish

/-- **An empty name** that is printed before the options is not read back. -/
theorem parseFrom_swallowed {w : Text}
    (h : pq.parseFrom params (pq.paramsToConnstr [(pq.dbname, []), (pq.options, w)]) = some params') :
    ∃ v, v ≠ [] ∧ params' pq.dbname = some v := by
  let s : Scan K := ⟨params, .value (pq.word pq.dbname) (pq.word pq.options ++ [61]) false false⟩
  have hs : pq.Swallowed s := ⟨by simp [s], .inr ⟨_, _, rfl⟩⟩
  obtain ⟨s', hrun, hfinish⟩ : ∃ s', run pq.scan s (connstrValue w) = some s' ∧
      pq.finish s' = some params' := by
    have hnil : connstrValue [] = [] := rfl
    have hblank : pq.scan ⟨params, .equals (pq.word pq.dbname)⟩ 32 =
      some ⟨params, .equals (pq.word pq.dbname)⟩ := rfl
    have hequal : pq.scan ⟨params, .value (pq.word pq.dbname) (pq.word pq.options) false false⟩ 61 =
      some s := rfl
    rw [parseFrom, paramsToConnstr, paramsToConnstr, run_word, hnil, nil_append, run_cons, hblank,
      Option.bind_some, run_append, run_equals (pq.word_ne_nil _) (pq.word_plain _),
      Option.bind_some, run_cons, hequal, Option.bind_some] at h
    exact Option.bind_eq_some_iff.1 h
  unfold connstrValue at hrun
  split at hrun
  · rename_i hplain
    rw [run_plain _ (by simpa using hplain)] at hrun
    cases hrun
    have hend : pq.Swallowed ⟨params, .value (pq.word pq.dbname) (pq.word pq.options ++ [61] ++ w)
      false false⟩ := ⟨by simp, .inr ⟨_, _, rfl⟩⟩
    exact hend.store rfl (by simp) hfinish
  · have hquote : pq.scan s 39 = some ⟨params, .value (pq.word pq.dbname)
      (pq.word pq.options ++ [61] ++ [39]) false false⟩ := rfl
    rw [run_cons, hquote, Option.bind_some, run_append, run_flatMap] at hrun
    obtain ⟨s₁, hs₁, hlast⟩ := Option.bind_eq_some_iff.1 hrun
    obtain ⟨s₂, hs₂, ⟨⟩⟩ := run_cons_eq_some.1 hlast
    have hswallowed : pq.Swallowed s₁ :=
      run_invariant (fun _ _ _ h hstep => Swallowed.run_escape h hstep)
        (hs.scan (by simp [s]) hquote) hs₁
    exact hswallowed.finish hs₂ hfinish

theorem parseFrom_overrides_iff :
    pq.parseFrom params (pq.paramsToConnstr (pq.overrides dbname options)) =
      some (pq.replaced params' dbname options) ↔
    (dbname = some [] → options = none) ∧
      pq.replaced params dbname options = pq.replaced params' dbname options := by
  by_cases hlast : dbname = some [] → options = none
  · rw [parseFrom_overrides hlast, Option.some_inj]
    exact ⟨fun h => ⟨hlast, h⟩, And.right⟩
  · refine iff_of_false (fun h => ?_) fun h => hlast h.1
    obtain ⟨rfl, hoptions⟩ := Classical.not_imp.1 hlast
    obtain ⟨w, rfl⟩ := Option.ne_none_iff_exists'.1 hoptions
    obtain ⟨v, hv, heq⟩ := parseFrom_swallowed h
    simp [replaced, override, pq.dbname_ne_options, Ne.symm hv] at heq

/-- **A text without `=`** that libpq accepts is blank. -/
theorem parse_of_not_isConnstr (hconnstr : ¬ isConnstr connstr)
    (haccepted : pq.parse connstr = some conninfo) : conninfo = fun _ => none := by
  obtain ⟨huri, hequals⟩ : isUri connstr = false ∧ 61 ∉ connstr := by simpa [isConnstr] using hconnstr
  rw [parse, huri] at haccepted
  obtain ⟨s, hrun, hfinish⟩ := Option.bind_eq_some_iff.1 haccepted
  have hs : s = ⟨fun _ => none, .blank⟩ ∨ ∃ pname, s.phase = .name pname ∨ s.phase = .nameEnd pname := by
    have hnone : ∀ b ∈ connstr, b ≠ 61 := fun b hb heq => hequals (heq ▸ hb)
    refine run_invariant_along (I := fun s => s = ⟨fun _ => none, .blank⟩ ∨
      ∃ pname, s.phase = .name pname ∨ s.phase = .nameEnd pname) (fun s b s' hs hb hscan => ?_)
      (.inl rfl) (along_of_forall hnone _) hrun
    obtain ⟨params, phase⟩ := s
    grind [scan]
  rcases hs with rfl | ⟨pname, hphase | hphase⟩
  · exact (Option.some_inj.1 hfinish).symm
  · simp [finish, hphase] at hfinish
  · simp [finish, hphase] at hfinish

/-- **The round trip** of a connection string that libpq accepts: it is one by the test that is made
for it, or a database name is given; an empty database name is the last to be printed; and no
parameter without an override is empty. -/
theorem reparsed_iff (haccepted : pq.parse connstr = some conninfo) :
    (pq.getConnstr (some connstr) dbname options).bind pq.conninfoParse =
      some (pq.replaced conninfo dbname options) ↔
    (isConnstr connstr ∨ dbname.isSome) ∧ (dbname = some [] → options = none) ∧
      ∀ k, pq.override dbname options k = none → conninfo k ≠ some [] := by
  by_cases hconnstr : isConnstr connstr
  · rw [getConnstr, Option.filter_some, if_pos hconnstr]
    simp only [haccepted, Option.map_some, Option.bind_some]
    rw [conninfoParse, parseFrom_append fun q => entries_ne_nil, foldl_entries,
      parseFrom_overrides_iff, replaced_taken_iff]
    simp [hconnstr]
  · obtain rfl := parse_of_not_isConnstr hconnstr haccepted
    rw [getConnstr, Option.filter_some, if_neg hconnstr]
    simp only [Option.bind_some, conninfoParse]
    cases dbname with
    | some v =>
      refine parseFrom_overrides_iff.trans ?_
      simp
    | none =>
      -- the string is taken for the name of a database
      refine iff_of_false (fun h => ?_) (by simp [hconnstr])
      by_cases hlast : some connstr = some [] → options = none
      · have heq := (parseFrom_overrides hlast).symm.trans h
        rw [Option.some_inj] at heq
        simpa [replaced, override, pq.dbname_ne_options] using congrFun heq pq.dbname
      · obtain ⟨heq, hoptions⟩ := Classical.not_imp.1 hlast
        obtain ⟨w, rfl⟩ := Option.ne_none_iff_exists'.1 hoptions
        cases heq
        obtain ⟨v, -, heq⟩ := parseFrom_swallowed h
        simp [replaced, override, pq.dbname_ne_options] at heq

end

section Sample

/-- Two keywords, `dbname` and `options`. -/
def sample : Libpq Bool where
  keywords := [false, true]
  word k := if k then [111, 112, 116, 105, 111, 110, 115] else [100, 98, 110, 97, 109, 101]
  find s := if s = [111, 112, 116, 105, 111, 110, 115] then some true
    else if s = [100, 98, 110, 97, 109, 101] then some false else none
  dbname := false
  options := true
  parseUri _ := none
  mem_keywords := by decide
  word_ne_nil := by decide
  word_plain := by decide +kernel
  find_word := by decide
  dbname_ne_options := by decide

/-- `dbname=a`. -/
def sampleConnstr : Text := [100, 98, 110, 97, 109, 101, 61, 97]

/-- **Satisfiable.** A quote, a backslash and a blank. -/
theorem reparsed_iff_quoted : (sample.getConnstr (some sampleConnstr) (some [39, 92]) (some [32])).bind
    sample.conninfoParse = some (sample.replaced (update (fun _ => none) false (some [97]))
      (some [39, 92]) (some [32])) := by
  refine (reparsed_iff rfl).2 ⟨.inl rfl, nofun, by decide⟩

/-- **The empty name of a database takes the options for its value.** -/
theorem reparsed_swallows : ((sample.getConnstr (some sampleConnstr) (some []) (some [120])).bind
    sample.conninfoParse).map (fun params => (params false, params true)) =
      some (some [111, 112, 116, 105, 111, 110, 115, 61, 120], none) := by
  decide

end Sample

end Libpq

end Spock
