import Spock.Nodes.Catalog

/-!
# Spock — slot names

`gen_slot_name` makes the name of a replication slot, and of a replication origin, of the names of
the database, of the provider node and of the subscription. It joins them with underscores, and a
name of more than 16 bytes is cut to eight of them with seven digits of its hash: `shorten_hash`
passes `snprintf` a size that counts the final zero byte. A sync worker adds `_` and the hash of its
table.

* **`slotName_valid_distinct`** — the names are valid and short, and differ exactly if separated.
-/

namespace Spock.Nodes

open List

structure SlotKey where
  dbname : List UInt8
  providerNode : List UInt8
  subscriptionName : List UInt8
  deriving DecidableEq

/-- The name for a database, a node and a subscription. -/
def SlotKey.slotName (k : SlotKey) : List UInt8 :=
  genSlotName k.dbname k.providerNode k.subscriptionName

/-- The slot of a sync worker: `%s_%08x`, as `spock_sync_main` builds it. -/
def tableSyncSlotName (slotName tablename : List UInt8) : List UInt8 :=
  slotName ++ [95] ++ hex8 (hashAny tablename)

/-- `ReplicationSlotValidateName`. -/
def replicationSlotValidateName (name : List UInt8) : Bool :=
  !name.isEmpty && name.length < 64 && name.all validSlotChar

/-- All bytes are of `[a-z0-9_]`. -/
def SlotKey.Plain (k : SlotKey) : Prop :=
  k.dbname.all validSlotChar ∧ k.providerNode.all validSlotChar ∧
    k.subscriptionName.all validSlotChar
  deriving Decidable

/-- A name as it stands in a slot name: a long one with its first eight bytes and the first seven
digits of its hash. -/
def cutName (c : List UInt8) : List UInt8 :=
  if 16 < c.length then c.take 8 ++ (hex8 (hashAny c)).take 7 else c

/-- Names that are cut to the same: two long ones with the same first eight bytes and the
same first seven digits of the hash, or a long one and the 15 bytes that it is cut to. -/
def Merged (c c' : List UInt8) : Prop :=
  c = c' ∨
    (16 < c.length ∧ 16 < c'.length ∧ c.take 8 = c'.take 8 ∧
      (hashAny c).toNat / 16 = (hashAny c').toNat / 16) ∨
    (16 < c.length ∧ c' = c.take 8 ++ (hex8 (hashAny c)).take 7) ∨
    (16 < c'.length ∧ c = c'.take 8 ++ (hex8 (hashAny c')).take 7)
  deriving Decidable

def SlotKey.parts (k : SlotKey) : List (List UInt8) :=
  [cutName k.dbname, cutName k.providerNode, cutName k.subscriptionName]

/-- What stands between the underscores of a slot name, those inside of the three names included. -/
def SlotKey.words (k : SlotKey) : List (List UInt8) := k.parts.flatMap (splitOn 95)

/-- Keys that neither an underscore inside of a name nor the cutting of long names makes the same. -/
structure SlotKey.Separated (k k' : SlotKey) : Prop where
  -- the same words are not divided into names in two ways, as `a_b`, `c` and `a`, `b_c`
  divided : k.words = k'.words → k.parts = k'.parts
  merged : ¬ (Merged k.dbname k'.dbname ∧ Merged k.providerNode k'.providerNode ∧
    Merged k.subscriptionName k'.subscriptionName)

/-! ## Characters -/

theorem validSlotChar_slotChar (c : UInt8) : validSlotChar (slotChar c) = true := by
  unfold slotChar
  split
  · assumption
  · decide

variable {c : UInt8} {name c' : List UInt8}

theorem slotChar_eq (h : validSlotChar c = true) : slotChar c = c := if_pos h

theorem hexDigit_valid : ∀ n < 16, validSlotChar (hexDigit n) = true ∧ hexDigit n ≠ 95 := by decide

theorem hexDigit_inj : ∀ m < 16, ∀ n < 16, hexDigit m = hexDigit n → m = n := by decide

theorem mem_hex8 {x : UInt32} (h : c ∈ hex8 x) : validSlotChar c = true ∧ c ≠ 95 := by
  obtain ⟨i, -, rfl⟩ := mem_map.1 h
  exact hexDigit_valid _ (Nat.mod_lt _ (by decide))

theorem length_hex8 (x : UInt32) : (hex8 x).length = 8 := by
  rw [hex8, length_map, length_range]

theorem mem_shortenHash (h : c ∈ shortenHash name 16) :
    c ∈ name ∨ validSlotChar c = true ∧ c ≠ 95 := by
  unfold shortenHash at h
  split at h
  · exact .inl h
  · rcases mem_append.1 (mem_of_mem_take h) with h | h
    · exact .inl (mem_of_mem_take h)
    · exact .inr (mem_hex8 h)

theorem slotPart_eq (hname : name.all validSlotChar) : slotPart name = shortenHash name 16 :=
  (map_congr_left fun c hc => slotChar_eq
    ((mem_shortenHash hc).elim (all_eq_true.1 hname c) (·.1))).trans (map_id _)

/-! ## Valid names -/

theorem slotPart_length (name : List UInt8) : (slotPart name).length ≤ 16 := by
  rw [slotPart, length_map]
  exact shortenHash_length name

theorem slotName_length (k : SlotKey) : k.slotName.length ≤ 54 := by
  have hdb := slotPart_length k.dbname
  have hnode := slotPart_length k.providerNode
  have hsub := slotPart_length k.subscriptionName
  rw [SlotKey.slotName, genSlotName_eq]
  simp only [length_append, length_cons, length_nil]
  omega

theorem slotName_chars (k : SlotKey) : k.slotName.all validSlotChar = true := by
  rw [SlotKey.slotName, genSlotName, all_map]
  exact all_eq_true.2 fun c _ => validSlotChar_slotChar c

theorem slotName_valid (k : SlotKey) : replicationSlotValidateName k.slotName = true := by
  have hlen := slotName_length k
  have hne : k.slotName.isEmpty = false := by rw [SlotKey.slotName, genSlotName_eq]; rfl
  rw [replicationSlotValidateName, hne, slotName_chars, decide_eq_true (by omega)]
  rfl

theorem tableSyncSlotName_valid (k : SlotKey) (tablename : List UInt8) :
    replicationSlotValidateName (tableSyncSlotName k.slotName tablename) = true := by
  have hlen := slotName_length k
  have hhash := length_hex8 (hashAny tablename)
  have hne : (tableSyncSlotName k.slotName tablename).isEmpty = false := by
    rw [tableSyncSlotName, SlotKey.slotName, genSlotName_eq]
    rfl
  have hchars : (tableSyncSlotName k.slotName tablename).all validSlotChar = true := by
    rw [tableSyncSlotName, all_append, all_append, slotName_chars,
      all_eq_true.2 fun c hc => (mem_hex8 hc).1]
    decide
  have hshort : (tableSyncSlotName k.slotName tablename).length < 64 := by
    rw [tableSyncSlotName]
    simp only [length_append, length_cons, length_nil]
    omega
  rw [replicationSlotValidateName, hne, hchars, decide_eq_true hshort]
  rfl

/-! ## Distinct names -/

/-- The first seven digits are those of the number without its last digit. -/
theorem digits_eq (x : UInt32) :
    (hex8 x).take 7 = (range 7).map fun i => hexDigit (x.toNat / 16 / 16 ^ (6 - i) % 16) := by
  rw [hex8, ← map_take, take_range]
  refine map_congr_left fun i hi => ?_
  rw [Nat.div_div_eq_div_mul, ← Nat.pow_succ', show 7 - i = (6 - i).succ by
    have := mem_range.1 hi
    omega]

theorem eq_of_digits_eq {n x y : Nat} (hx : x < 16 ^ n) (hy : y < 16 ^ n)
    (h : ∀ i < n, x / 16 ^ i % 16 = y / 16 ^ i % 16) : x = y := by
  induction n generalizing x y with
  | zero => omega
  | succ n ih =>
    have hlow := h 0 (Nat.succ_pos n)
    have hhigh : x / 16 = y / 16 := by
      rw [Nat.pow_succ'] at hx hy
      refine ih (Nat.div_lt_of_lt_mul hx) (Nat.div_lt_of_lt_mul hy) fun i hi => ?_
      rw [Nat.div_div_eq_div_mul, Nat.div_div_eq_div_mul, ← Nat.pow_succ']
      exact h (i + 1) (Nat.succ_lt_succ hi)
    rw [Nat.pow_zero, Nat.div_one, Nat.div_one] at hlow
    omega

theorem digits_eq_iff {x y : UInt32} :
    (hex8 x).take 7 = (hex8 y).take 7 ↔ x.toNat / 16 = y.toNat / 16 := by
  refine ⟨fun h => ?_, fun h => by rw [digits_eq, digits_eq, h]⟩
  have hx := x.toNat_lt
  have hy := y.toNat_lt
  rw [digits_eq, digits_eq] at h
  refine @eq_of_digits_eq 7 _ _ (by omega) (by omega) fun i hi => ?_
  have hdigit := hexDigit_inj _ (Nat.mod_lt _ (by decide)) _ (Nat.mod_lt _ (by decide))
    (map_inj_left.1 h (6 - i) (mem_range.2 (by omega)))
  rwa [show 6 - (6 - i) = i by omega] at hdigit

theorem shortenHash_eq (c : List UInt8) : shortenHash c 16 = cutName c := by
  unfold shortenHash cutName
  split
  · rw [if_neg (by omega)]
  · have hlen : (c.take (16 - 8)).length = 8 := length_take_of_le (by omega)
    rw [if_pos (by omega), take_append, hlen, take_of_length_le (by omega)]

theorem cutName_eq_iff {c : List UInt8} : cutName c = cutName c' ↔ Merged c c' := by
  have hlong {c : List UInt8} (hc : 16 < c.length) :
      (c.take 8 ++ (hex8 (hashAny c)).take 7).length = 15 := by
    rw [length_append, length_take_of_le (by omega),
      length_take_of_le (by rw [length_hex8]; decide)]
  unfold Merged cutName
  by_cases hc : 16 < c.length <;> by_cases hc' : 16 < c'.length
  · have hlen : (c.take 8).length = (c'.take 8).length := by
      rw [length_take_of_le (by omega), length_take_of_le (by omega)]
    rw [if_pos hc, if_pos hc']
    constructor
    · intro heq
      obtain ⟨htake, hdigits⟩ := append_inj heq hlen
      exact .inr (.inl ⟨hc, hc', htake, digits_eq_iff.1 hdigits⟩)
    · rintro (rfl | ⟨-, -, htake, hhash⟩ | ⟨-, rfl⟩ | ⟨-, rfl⟩)
      · rfl
      · rw [htake, digits_eq_iff.2 hhash]
      · exact absurd (hlong hc) (by omega)
      · exact absurd (hlong hc') (by omega)
  · rw [if_pos hc, if_neg hc']
    exact ⟨fun heq => .inr (.inr (.inl ⟨hc, heq.symm⟩)), by
      rintro (rfl | ⟨-, h, -⟩ | ⟨-, h⟩ | ⟨h, -⟩)
      exacts [absurd hc hc', absurd h hc', h.symm, absurd h hc']⟩
  · rw [if_neg hc, if_pos hc']
    exact ⟨fun heq => .inr (.inr (.inr ⟨hc', heq⟩)), by
      rintro (rfl | ⟨h, -⟩ | ⟨h, -⟩ | ⟨-, h⟩)
      exacts [absurd hc' hc, absurd h hc, absurd h hc, h]⟩
  · rw [if_neg hc, if_neg hc']
    exact ⟨.inl, by
      rintro (h | ⟨h, -⟩ | ⟨h, -⟩ | ⟨h, -⟩)
      exacts [h, absurd h hc, absurd h hc, absurd h hc']⟩

/-- A slot name is its words, joined with underscores. -/
theorem splitOn_slotName {k : SlotKey} (hk : k.Plain) :
    splitOn 95 k.slotName = [115, 112, 107] :: k.words := by
  obtain ⟨hdb, hnode, hsub⟩ := hk
  have happend (a r : List UInt8) : splitOn 95 (a ++ 95 :: r) = splitOn 95 a ++ splitOn 95 r :=
    splitOn_append_cons_self a r
  rw [SlotKey.slotName, genSlotName_eq, slotPart_eq hdb, slotPart_eq hnode, slotPart_eq hsub,
    shortenHash_eq, shortenHash_eq, shortenHash_eq,
    show ([115, 112, 107, 95] : List UInt8) = [115, 112, 107] ++ [95] from rfl, append_assoc,
    singleton_append, happend, happend, happend, SlotKey.words, SlotKey.parts]
  simp only [flatMap_cons, flatMap_nil, append_nil]
  rfl

theorem slotName_eq_iff {k k' : SlotKey} (hk : k.Plain) (hk' : k'.Plain) :
    k.slotName = k'.slotName ↔ k.words = k'.words := by
  refine ⟨fun h => ?_, fun h => ?_⟩
  · exact (cons_inj_right _).1 (by rw [← splitOn_slotName hk, ← splitOn_slotName hk', h])
  · have hjoin : [95].intercalate (k.slotName.splitOn 95) = k.slotName := intercalate_splitOn 95
    rw [← hjoin, splitOn_slotName hk, h, ← splitOn_slotName hk', intercalate_splitOn]

theorem parts_eq_iff {k k' : SlotKey} : k.parts = k'.parts ↔ Merged k.dbname k'.dbname ∧
    Merged k.providerNode k'.providerNode ∧ Merged k.subscriptionName k'.subscriptionName := by
  simp only [SlotKey.parts, cons.injEq, cutName_eq_iff, and_true]

theorem slotName_ne_iff {k k' : SlotKey} (hk : k.Plain) (hk' : k'.Plain) :
    k.slotName ≠ k'.slotName ↔ k.Separated k' := by
  rw [Ne, slotName_eq_iff hk hk']
  refine ⟨fun hne => ⟨(absurd · hne), fun hmerged => hne ?_⟩, fun h hwords => ?_⟩
  · rw [SlotKey.words, parts_eq_iff.2 hmerged, SlotKey.words]
  · exact h.merged (parts_eq_iff.1 (h.divided hwords))

/-- **Slot names.** Whatever the names are, the slot name is valid and leaves room for the suffix of
a sync worker; and names of `[a-z0-9_]` have different slot names exactly if they are separated. -/
theorem slotName_valid_distinct (k : SlotKey) :
    replicationSlotValidateName k.slotName = true ∧ k.slotName.length + 9 < 64 ∧
      (∀ tablename, replicationSlotValidateName (tableSyncSlotName k.slotName tablename) = true) ∧
      ∀ k', k.Plain → k'.Plain → (k.slotName ≠ k'.slotName ↔ k.Separated k') := by
  have hlen := slotName_length k
  exact ⟨slotName_valid k, by omega, tableSyncSlotName_valid k,
    fun _ hk hk' => slotName_ne_iff hk hk'⟩

/-- The names `a_b`, `n_1` and `s`, and `a_b`, `n_2` and `s`. -/
theorem slotName_valid_distinct_twoNodes :
    (⟨[97, 95, 98], [110, 95, 49], [115]⟩ : SlotKey).slotName ≠
      (⟨[97, 95, 98], [110, 95, 50], [115]⟩ : SlotKey).slotName :=
  ((slotName_valid_distinct _).2.2.2 _ (by decide) (by decide)).2 ⟨by decide, by decide⟩

/-- **Names that are not told apart.** The database `a_b` with the node `c` and the database `a` with
the node `b_c`; and the subscriptions `customer000009951` and `customer000005142`, whose hashes
differ in the digit that is cut off. -/
theorem slotNames_collide :
    (∃ k k' : SlotKey, k.Plain ∧ k'.Plain ∧ k ≠ k' ∧
      (∀ c ∈ [k, k'], c.dbname.length ≤ 16 ∧ c.providerNode.length ≤ 16 ∧
        c.subscriptionName.length ≤ 16) ∧ k.slotName = k'.slotName) ∧
      ∃ k k' : SlotKey, k.Plain ∧ k'.Plain ∧
        hashAny k.subscriptionName ≠ hashAny k'.subscriptionName ∧ k.slotName = k'.slotName :=
  ⟨⟨⟨[97, 95, 98], [99], [100]⟩, ⟨[97], [98, 95, 99], [100]⟩, by decide⟩,
    ⟨[97], [98], [99, 117, 115, 116, 111, 109, 101, 114, 48, 48, 48, 48, 48, 57, 57, 53, 49]⟩,
    ⟨[97], [98], [99, 117, 115, 116, 111, 109, 101, 114, 48, 48, 48, 48, 48, 53, 49, 52, 50]⟩,
    by decide, by decide, by decide +kernel, by decide +kernel⟩

end Spock.Nodes
