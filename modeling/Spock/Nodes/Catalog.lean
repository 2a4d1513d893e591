import Spock.Protocol.Format

/-!
# Spock — nodes and their ids

`create_node` of `spock_node.c`. A node has a name and a 16-bit id, which replication uses as the id
of the origin of its transactions. The id is computed from the name by PostgreSQL's `hash_any`, and
checked against the nodes in the catalog `spock.node` of the server, which has the local node and
those that subscriptions have been made to.
-/

namespace Spock.Nodes

open Protocol List

/-! ## `hash_any` -/

/-- The three words that `hash_bytes` mixes. -/
structure Words where
  a : UInt32
  b : UInt32
  c : UInt32

def rot (x : UInt32) (k : UInt32) : UInt32 := (x <<< k) ||| (x >>> (32 - k))

def Words.mix (w : Words) : Words :=
  let ⟨a, b, c⟩ := w
  let a := (a - c) ^^^ rot c 4
  let c := c + b
  let b := (b - a) ^^^ rot a 6
  let a := a + c
  let c := (c - b) ^^^ rot b 8
  let b := b + a
  let a := (a - c) ^^^ rot c 16
  let c := c + b
  let b := (b - a) ^^^ rot a 19
  let a := a + c
  let c := (c - b) ^^^ rot b 4
  let b := b + a
  ⟨a, b, c⟩

/-- `final`, and the word that is the hash value. -/
def Words.final (w : Words) : UInt32 :=
  let ⟨a, b, c⟩ := w
  let c := (c ^^^ b) - rot b 14
  let a := (a ^^^ c) - rot c 11
  let b := (b ^^^ a) - rot a 25
  let c := (c ^^^ b) - rot b 16
  let a := (a ^^^ c) - rot c 4
  let b := (b ^^^ a) - rot a 14
  (c ^^^ b) - rot b 24

def word : List UInt8 → UInt32
  | [] => 0
  | k :: ks => k.toUInt32 + word ks * 256

def hashBlocks : Nat → Words → List UInt8 → Words × List UInt8
  | 0, w, k => (w, k)
  | n + 1, w, k =>
    let w : Words :=
      ⟨w.a + word (k.take 4), w.b + word ((k.drop 4).take 4), w.c + word ((k.drop 8).take 4)⟩
    hashBlocks n w.mix (k.drop 12)

/-- `hash_bytes`. The lowest byte of the third word is left for the length. -/
def hashAny (k : List UInt8) : UInt32 :=
  let init : UInt32 := 0x9e3779b9 + k.length.toUInt32 + 3923095
  let (w, k) := hashBlocks (k.length / 12) ⟨init, init, init⟩ k
  Words.final
    ⟨w.a + word (k.take 4), w.b + word ((k.drop 4).take 4), w.c + word ((k.drop 8).take 4) * 256⟩

/-! ## Nodes -/

/-- A row of `spock.node`. -/
structure Node where
  name : CString
  id : UInt16
  deriving DecidableEq

/-- What `create_node` raises. -/
inductive CreateNodeError where
  /-- `node %s already exists`. -/
  | exists (name : CString)
  /-- `node id %u (computed from name "%s") collides with existing node "%s"; rename this node to
  resolve the collision`. -/
  | collides (id : UInt16) (name existing : CString)
  deriving DecidableEq

def nodeId (name : CString) : UInt16 := (hashAny name.bytes &&& 0xffff).toUInt16

def getNodeByName (catalog : List Node) (name : CString) : Option Node := catalog.find? (·.name = name)

def getNode (catalog : List Node) (id : UInt16) : Option Node := catalog.find? (·.id = id)

/-- `create_node`. An id of 0 is `InvalidOid`: none has been specified. -/
def createNode (catalog : List Node) (node : Node) : Except CreateNodeError (List Node × Node) :=
  if (getNodeByName catalog node.name).isSome then throw (.exists node.name)
  else
    let id := if node.id = 0 then nodeId node.name else node.id
    match getNode catalog id with
    | some existing => throw (.collides id node.name existing.name)
    | none => pure (catalog ++ [⟨node.name, id⟩], ⟨node.name, id⟩)

/-- `DoNotReplicateId`. -/
def doNotReplicateId : UInt16 := 65535

/-! ## Slot names -/

def hexDigit (n : Nat) : UInt8 := if n < 10 then 48 + n.toUInt8 else 87 + n.toUInt8

/-- `%08x`. -/
def hex8 (x : UInt32) : List UInt8 :=
  (List.range 8).map fun i => hexDigit (x.toNat / 16 ^ (7 - i) % 16)

/-- `shorten_hash`. The size that is passed to `snprintf` counts the final zero byte. -/
def shortenHash (str : List UInt8) (maxlen : Nat) : List UInt8 :=
  if str.length ≤ maxlen then str
  else (str.take (maxlen - 8) ++ hex8 (hashAny str)).take (maxlen - 1)

def validSlotChar (c : UInt8) : Bool := (97 ≤ c && c ≤ 122) || (48 ≤ c && c ≤ 57) || c == 95

def slotChar (c : UInt8) : UInt8 := if validSlotChar c then c else 95

/-- `gen_slot_name`: `spk_%s_%s_%s`. -/
def genSlotName (dbname providerNode subscriptionName : List UInt8) : List UInt8 :=
  ((([115, 112, 107, 95] ++ shortenHash dbname 16 ++ [95]) ++ shortenHash providerNode 16 ++
    ([95] ++ shortenHash subscriptionName 16)).take 63).map slotChar

def slotPart (name : List UInt8) : List UInt8 := (shortenHash name 16).map slotChar

theorem shortenHash_length (str : List UInt8) : (shortenHash str 16).length ≤ 16 := by
  unfold shortenHash
  split
  · assumption
  · exact (length_take_le _ _).trans (by decide)

theorem genSlotName_eq (db name sub : List UInt8) : genSlotName db name sub =
    [115, 112, 107, 95] ++ (slotPart db ++ 95 :: (slotPart name ++ 95 :: slotPart sub)) := by
  have hdb := shortenHash_length db
  have hname := shortenHash_length name
  have hsub := shortenHash_length sub
  rw [genSlotName, take_of_length_le]
  · simp only [map_append, slotPart, append_assoc]
    rfl
  · simp only [length_append, length_cons, length_nil]
    omega

theorem slotPart_of_genSlotName {db name name' sub : List UInt8}
    (h : genSlotName db name sub = genSlotName db name' sub) : slotPart name = slotPart name' := by
  rw [genSlotName_eq, genSlotName_eq] at h
  exact append_cancel_right (cons_inj_right 95 |>.mp (append_cancel_left (append_cancel_left h)))

/-! ## The catalog -/

/-- **A new row.** Its id is the one specified or the hash of its name, and neither is in the
catalog. -/
theorem createNode_eq_ok {catalog catalog' : List Node} {node node' : Node}
    (h : createNode catalog node = .ok (catalog', node')) :
    node'.name = node.name ∧ node'.id = (if node.id = 0 then nodeId node.name else node.id) ∧
      catalog' = catalog ++ [node'] ∧ (∀ e ∈ catalog, e.name ≠ node'.name) ∧
      ∀ e ∈ catalog, e.id ≠ node'.id := by
  unfold createNode at h
  by_cases hname : (getNodeByName catalog node.name).isSome
  · rw [if_pos hname] at h
    cases h
  · rw [if_neg hname] at h
    dsimp only at h
    split at h
    · cases h
    · rename_i hid
      cases h
      refine ⟨rfl, rfl, rfl, fun e he heq => hname ?_, fun e he heq => ?_⟩
      · exact find?_isSome.2 ⟨e, he, decide_eq_true heq⟩
      · exact find?_eq_none.1 hid e he (decide_eq_true heq)

/-- `n1` and `n2`, with the ids that the documentation has for them. -/
example : nodeId ⟨[110, 49], by decide⟩ = 49708 ∧ nodeId ⟨[110, 50], by decide⟩ = 26863 := by decide

end Spock.Nodes
