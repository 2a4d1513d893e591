import Mathlib.Data.List.Nodup
import Spock.Pass.Message

/-!
# Spock — the keys of queued messages

`parse_relation_message` and `handle_sequence` compare a key with the expected ones by `strncmp`
over the length of the key, so that a key is taken for the first expected one that it is a prefix
of. Without such keys they read what is documented, and nothing else.

* **`parse_documented_iff`** — the messages of TABLESYNC and SEQUENCE.
-/

namespace Spock.Pass

open Checked List

def relationKeys : List String := ["schema_name", "table_name"]

def sequenceKeys : List String := ["schema_name", "sequence_name", "last_value"]

/-- The expected key that a key is taken for. -/
def takenFor (keys : List String) (key : String) : Option Nat :=
  keys.findIdx? fun k => key.toList.isPrefixOf k.toList

/-- No key is a proper prefix of an expected one. -/
def NoPrefixes (keys : List String) (pairs : List (String × Jsonb)) : Prop :=
  ∀ p ∈ pairs, ∀ k ∈ keys, p.1.toList <+: k.toList → p.1 = k

/-- Every key is a prefix of an expected one, and every value is a string. -/
def Accepted (keys : List String) (pairs : List (String × Jsonb)) : Prop :=
  ∀ p ∈ pairs, (takenFor keys p.1).isSome ∧ ∃ s, p.2 = .string s

/-- For each expected key there is one that is taken for it. -/
def Complete (keys : List String) (pairs : List (String × Jsonb)) : Prop :=
  ∀ i < keys.length, ∃ p ∈ pairs, takenFor keys p.1 = some i

/-- The keys are the expected ones, with these strings. -/
structure Documented (keys values : List String) (pairs : List (String × Jsonb)) : Prop where
  known : ∀ p ∈ pairs, p.1 ∈ keys
  stored : ∀ p ∈ keys.zip values, (p.1, .string p.2) ∈ pairs

section Fields

variable {sub : Subscription} {keys values : List String} {pairs : List (String × Jsonb)}
  {fields out : List (Option String)}

/-! ## The loop over the pairs -/

/-- A field that is filled has the value of a pair that was taken for its key, or what it had. -/
structure Filled (keys : List String) (pairs : List (String × Jsonb))
    (fields out : List (Option String)) : Prop where
  length : out.length = fields.length
  source : ∀ {i : Nat} {v}, out[i]? = some (some v) →
    (∃ p ∈ pairs, takenFor keys p.1 = some i ∧ p.2 = .string v) ∨ fields[i]? = some (some v)
  filled : ∀ {i : Nat}, i < fields.length →
    (∃ p ∈ pairs, takenFor keys p.1 = some i) ∨ (∃ v, fields[i]? = some (some v)) →
      ∃ v, out[i]? = some (some v)

/-- What the loop over the pairs accepts, and the fields it leaves. -/
theorem checks_parseFields (fields : List (Option String)) :
    Checks (parseFields sub keys pairs fields) (Accepted keys pairs) (Filled keys pairs fields) := by
  induction pairs generalizing fields with
  | nil => exact ⟨nofun, rfl, .inr, fun _ h => h.resolve_left (by simp)⟩
  | cons p pairs ih =>
    obtain ⟨key, value⟩ := p
    rw [Accepted, forall_mem_cons, parseFields, ← takenFor]
    cases htaken : takenFor keys key with
    | none => exact fun h => nomatch h.1.1
    | some i =>
      cases value with
      | string s =>
        refine (ih (fields.set i (some s))).mono (and_iff_right ⟨rfl, s, rfl⟩).symm ?_
        intro out hout
        refine ⟨by simpa using hout.length, fun {j v} hv => ?_, fun {j} hj h => ?_⟩
        · rcases hout.source hv with ⟨p, hp, hj⟩ | hset
          · exact .inl ⟨p, .tail _ hp, hj⟩
          · by_cases hij : i = j
            · rw [getElem?_set, if_pos hij] at hset
              obtain ⟨-, hs⟩ := Option.ite_none_right_eq_some.mp hset
              obtain rfl := Option.some.inj (Option.some.inj hs)
              exact .inl ⟨_, .head _, hij ▸ htaken, rfl⟩
            · exact .inr (by rwa [getElem?_set_ne hij] at hset)
        · refine hout.filled (by simpa using hj) ?_
          by_cases hij : i = j
          · exact .inr ⟨s, by rw [hij, getElem?_set_self hj]⟩
          · rw [getElem?_set_ne hij]
            refine h.imp_left ?_
            rintro ⟨p, hp, hpj⟩
            rcases mem_cons.mp hp with rfl | hp
            · exact absurd (Option.some.inj (htaken.symm.trans hpj)) hij
            · exact ⟨p, hp, hpj⟩
      | null | bool | numeric | array | object =>
        rintro ⟨⟨-, s, hs⟩, -⟩
        cases hs

theorem checks_parseObject : Checks (parseObject sub keys (.object pairs)) (Accepted keys pairs)
    (Filled keys pairs (keys.map fun _ => none)) := checks_parseFields _

/-- **What is read** has been stored under keys that were taken for the expected ones. -/
theorem read_of_parseObject (h : parseObject sub keys (.object pairs) = .ok (values.map some)) :
    Accepted keys pairs ∧ ∀ i v, values[i]? = some v →
      ∃ p ∈ pairs, takenFor keys p.1 = some i ∧ p.2 = .string v := by
  have hparsed := @checks_parseObject sub keys pairs
  rw [h] at hparsed
  refine ⟨hparsed.1, fun i v hv => ?_⟩
  exact (hparsed.2.source (by rw [getElem?_map, hv]; rfl)).resolve_right
    (by simp [getElem?_replicate])

theorem exists_parseObject (sub : Subscription) (haccepted : Accepted keys pairs)
    (hcomplete : Complete keys pairs) :
    ∃ values : List String, values.length = keys.length ∧
      parseObject sub keys (.object pairs) = .ok (values.map some) := by
  have hparsed := @checks_parseObject sub keys pairs
  cases hout : parseObject sub keys (.object pairs) with
  | error =>
    rw [hout] at hparsed
    exact absurd haccepted hparsed
  | ok out =>
    rw [hout] at hparsed
    have hlength : out.length = keys.length := by simpa using hparsed.2.length
    have hfilled : ∀ o ∈ out, some (o.getD "") = o := by
      intro o ho
      obtain ⟨i, hi, rfl⟩ := mem_iff_getElem.mp ho
      obtain ⟨v, hv⟩ := hparsed.2.filled (by simpa [← hlength] using hi)
        (.inl (hcomplete i (hlength ▸ hi)))
      rw [getElem?_eq_getElem hi] at hv
      rw [Option.some.inj hv]
      rfl
    refine ⟨out.map (·.getD ""), by simpa using hlength, ?_⟩
    rw [map_map]
    exact congrArg Except.ok ((map_id out).symm.trans
      (map_congr_left fun o ho => (hfilled o ho).symm))

variable (hkeys : keys.Nodup)
  (hfree : ∀ k ∈ keys, ∀ k' ∈ keys, k.toList <+: k'.toList → k = k')
  (hnodup : (pairs.map Prod.fst).Nodup)

theorem NoPrefixes.key (h : NoPrefixes keys pairs) {p : String × Jsonb} (hp : p ∈ pairs) {i : Nat}
    (htaken : takenFor keys p.1 = some i) : keys[i]? = some p.1 := by
  obtain ⟨hi, hpre, -⟩ := findIdx?_eq_some_iff_getElem.mp htaken
  rw [getElem?_eq_some_iff]
  exact ⟨hi, (h p hp _ (getElem_mem hi) ( isPrefixOf_iff_prefix.mp hpre)).symm⟩

theorem Documented.pair (h : Documented keys values pairs) (hlen : values.length = keys.length) {i : Nat}
    {k : String} (hk : keys[i]? = some k) : ∃ v, values[i]? = some v ∧ (k, .string v) ∈ pairs := by
  have hi : i < values.length := hlen ▸ (List.getElem?_eq_some_iff.mp hk).1
  have hv := getElem?_eq_getElem hi
  exact ⟨_, hv, h.stored (k, values[i])
    (mem_of_getElem? (getElem?_zip_eq_some.mpr ⟨hk, hv⟩))⟩

include hkeys hfree in
theorem takenFor_self {key : String} {i : Nat} (h : keys[i]? = some key) :
    takenFor keys key = some i := by
  obtain ⟨hi, rfl⟩ := List.getElem?_eq_some_iff.mp h
  refine findIdx?_eq_some_iff_getElem.mpr ⟨hi, by simp, fun j hj hpre => ?_⟩
  have heq := hfree _ (getElem_mem hi) _ (getElem_mem (hj.trans hi))
    ( isPrefixOf_iff_prefix.mp hpre)
  exact hj.ne' (hkeys.getElem_inj_iff.mp heq)

include hkeys hfree hnodup

/-- **A documented object** is read, and has no prefixes. -/
theorem Documented.accepted (h : Documented keys values pairs) (hlen : values.length = keys.length) :
    Accepted keys pairs ∧ Complete keys pairs ∧ NoPrefixes keys pairs := by
  refine ⟨fun p hp => ?_, fun i hi => ?_, fun p hp k hk hpre => hfree _ (h.known p hp) k hk hpre⟩
  · obtain ⟨i, hi⟩ := mem_iff_getElem?.mp (h.known p hp)
    obtain ⟨v, -, hv⟩ := h.pair hlen hi
    refine ⟨by simp [takenFor_self hkeys hfree hi], v, ?_⟩
    exact congrArg Prod.snd (inj_on_of_nodup_map hnodup hp hv rfl)
  · have hk := getElem?_eq_getElem hi
    obtain ⟨v, -, hv⟩ := h.pair hlen hk
    exact ⟨_, hv, takenFor_self hkeys hfree hk⟩

/-- **An object without prefixes is read exactly when it is the documented one**, and then with the
values stored under its keys. -/
theorem parseObject_eq_ok (hpre : NoPrefixes keys pairs) (hlen : values.length = keys.length) :
    parseObject sub keys (.object pairs) = .ok (values.map some) ↔ Documented keys values pairs := by
  have hsound {values : List String}
      (h : parseObject sub keys (.object pairs) = .ok (values.map some)) :
      Documented keys values pairs := by
    obtain ⟨haccepted, hread⟩ := read_of_parseObject h
    refine ⟨fun p hp => ?_, fun p hp => ?_⟩
    · obtain ⟨i, hi⟩ := Option.isSome_iff_exists.mp (haccepted p hp).1
      exact mem_of_getElem? (hpre.key hp hi)
    · obtain ⟨i, hi⟩ := mem_iff_getElem?.mp hp
      obtain ⟨hk, hv⟩ := getElem?_zip_eq_some.mp hi
      obtain ⟨q, hq, htaken, hvalue⟩ := hread i _ hv
      rw [Option.some.inj (hk.symm.trans (hpre.key hq htaken)), ← hvalue]
      exact hq
  refine ⟨hsound, fun h => ?_⟩
  obtain ⟨haccepted, hcomplete, -⟩ := h.accepted hkeys hfree hnodup hlen
  obtain ⟨values', hlen', hok⟩ := exists_parseObject sub haccepted hcomplete
  -- the keys are there once, so that the two lists of values are one
  suffices heq : values' = values by rwa [← heq]
  refine ext_getElem (hlen'.trans hlen.symm) fun i hi hi' => ?_
  have hk := getElem?_eq_getElem (hlen' ▸ hi)
  obtain ⟨v, hv, hmem⟩ := h.pair hlen hk
  obtain ⟨v', hv', hmem'⟩ := (hsound hok).pair hlen' hk
  have heq := inj_on_of_nodup_map hnodup hmem hmem' rfl
  obtain ⟨_, hv⟩ := List.getElem?_eq_some_iff.mp hv
  obtain ⟨_, hv'⟩ := List.getElem?_eq_some_iff.mp hv'
  rw [hv, hv', Jsonb.string.inj (congrArg Prod.snd heq)]

/-- **Which objects are read as documented.** Those without prefixes, and those that are refused in
any case: for a key, for a value, or because a field is missing. -/
theorem documented_iff (sub : Subscription) :
    (∀ values, values.length = keys.length →
      (parseObject sub keys (.object pairs) = .ok (values.map some) ↔ Documented keys values pairs)) ↔
    (Accepted keys pairs → Complete keys pairs → NoPrefixes keys pairs) := by
  constructor
  · intro h haccepted hcomplete
    obtain ⟨values, hlen, hok⟩ := exists_parseObject sub haccepted hcomplete
    exact (((h values hlen).mp hok).accepted hkeys hfree hnodup hlen).2.2
  · intro h values hlen
    by_cases hread : Accepted keys pairs ∧ Complete keys pairs
    · exact parseObject_eq_ok hkeys hfree hnodup (h hread.1 hread.2) hlen
    · refine iff_of_false (fun hok => hread ?_) fun hdoc => hread ?_
      · obtain ⟨haccepted, hvalues⟩ := read_of_parseObject hok
        refine ⟨haccepted, fun i hi => ?_⟩
        obtain ⟨p, hp, htaken, -⟩ := hvalues i _ (getElem?_eq_getElem (hlen ▸ hi))
        exact ⟨p, hp, htaken⟩
      · obtain ⟨haccepted, hcomplete, -⟩ := hdoc.accepted hkeys hfree hnodup hlen
        exact ⟨haccepted, hcomplete⟩

end Fields

/-! ## The two messages -/

section Messages

variable {sub : Subscription} {message : Jsonb} {nspname relname lastValue : String}

theorem parseObject_length {keys : List String} {out : List (Option String)}
    (h : parseObject sub keys message = .ok out) : out.length = keys.length := by
  cases message with
  | object pairs =>
    have hparsed := @checks_parseObject sub keys pairs
    rw [h] at hparsed
    simpa using hparsed.2.length
  | _ => cases h

theorem parseRelationMessage_eq_ok : parseRelationMessage sub message = .ok (nspname, relname) ↔
    parseObject sub relationKeys message = .ok ([nspname, relname].map some) := by
  show (parseObject sub relationKeys message >>= _) = _ ↔ _
  cases hout : parseObject sub relationKeys message with
  | error => exact iff_of_false nofun nofun
  | ok out =>
    obtain ⟨a, b, rfl⟩ := length_eq_two.mp (parseObject_length hout)
    cases a <;> cases b <;>
      simp [requireField, bind, Except.bind, pure, Except.pure, throw, throwThe, MonadExceptOf.throw]

theorem parseSequenceMessage_eq_ok :
    parseSequenceMessage sub message = .ok (nspname, relname, lastValue) ↔
      parseObject sub sequenceKeys message = .ok ([nspname, relname, lastValue].map some) := by
  show (parseObject sub sequenceKeys message >>= _) = _ ↔ _
  cases hout : parseObject sub sequenceKeys message with
  | error => exact iff_of_false nofun nofun
  | ok out =>
    obtain ⟨a, b, c, rfl⟩ := length_eq_three.mp (parseObject_length hout)
    cases a <;> cases b <;> cases c <;>
      simp [requireField, bind, Except.bind, pure, Except.pure, throw, throwThe, MonadExceptOf.throw]

end Messages

/-- **The messages of TABLESYNC and SEQUENCE.** An object is accepted exactly when its keys are the
documented ones, each with a string, and these are the strings that are used: this holds if no key is
a proper prefix of an expected one, or if the object is refused in any case. -/
theorem parse_documented_iff (sub : Subscription) (pairs : List (String × Jsonb))
    (hnodup : (pairs.map Prod.fst).Nodup) :
    ((∀ nspname relname, parseRelationMessage sub (.object pairs) = .ok (nspname, relname) ↔
        Documented relationKeys [nspname, relname] pairs) ↔
      (Accepted relationKeys pairs → Complete relationKeys pairs → NoPrefixes relationKeys pairs)) ∧
    ((∀ nspname relname lastValue,
        parseSequenceMessage sub (.object pairs) = .ok (nspname, relname, lastValue) ↔
          Documented sequenceKeys [nspname, relname, lastValue] pairs) ↔
      (Accepted sequenceKeys pairs → Complete sequenceKeys pairs → NoPrefixes sequenceKeys pairs)) := by
  have hrelation := @documented_iff relationKeys pairs (by decide) (by decide) hnodup sub
  have hsequence := @documented_iff sequenceKeys pairs (by decide) (by decide) hnodup sub
  rw [← hrelation, ← hsequence]
  simp only [parseRelationMessage_eq_ok, parseSequenceMessage_eq_ok]
  constructor
  · refine ⟨fun h values hlen => ?_, fun h _ _ => h _ rfl⟩
    obtain ⟨a, b, rfl⟩ := length_eq_two.mp hlen
    exact h a b
  · refine ⟨fun h values hlen => ?_, fun h _ _ _ => h _ rfl⟩
    obtain ⟨a, b, c, rfl⟩ := length_eq_three.mp hlen
    exact h a b c

/-- **Satisfiable.** In any order. -/
theorem parse_documented_iff_swapped :
    Documented relationKeys ["s", "t"] [("table_name", .string "t"), ("schema_name", .string "s")] :=
  ((parse_documented_iff ⟨"sub", 0, false⟩ _ (by decide)).1.mpr
    (fun _ _ => by unfold NoPrefixes; decide) "s" "t").mp rfl

/-- **Other keys are accepted.** The empty one is taken for the schema, a shortened one for the
table. -/
theorem parse_accepts_prefixes :
    parseRelationMessage ⟨"sub", 0, false⟩ (.object [("", .string "s"), ("tab", .string "t")]) =
      .ok ("s", "t") ∧ "" ∉ relationKeys ∧ "tab" ∉ relationKeys :=
  ⟨rfl, by decide, by decide⟩

end Spock.Pass
