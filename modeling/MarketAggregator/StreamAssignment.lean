import MarketAggregator.BestElement
import MarketAggregator.OrderedMaps
import MarketAggregator.VenueStreams
import Mathlib.Data.UInt

/-!
# Which node owns which stream

Every node scores every stream and the highest score wins. The score is a pure
function of the two names, so nodes that read the same membership agree, and
nodes that list each other agree wherever both claim a stream.
-/

namespace StreamAssignment

open BestElement OrderedMaps VenueStreams

structure NodeId where
  text : String
  deriving DecidableEq, Repr

def NodeId.cmp : NodeId → NodeId → Ordering := compareOn NodeId.text

instance : Std.TransCmp NodeId.cmp := inferInstanceAs (Std.TransCmp (compareOn _))

instance : Std.LawfulEqCmp NodeId.cmp where
  eq_of_compare := by
    rintro ⟨a⟩ ⟨b⟩ h
    exact congrArg NodeId.mk (Std.LawfulEqOrd.eq_of_compare h)

def fnvOffset : UInt64 := 0xcbf29ce484222325

def fnvPrime : UInt64 := 0x00000100000001b3

def utf8Bytes (s : String) : List UInt8 := s.toList.flatMap String.utf8EncodeChar

def fnv (h : UInt64) (bytes : List UInt8) : UInt64 :=
  bytes.foldl (fun h b => (h ^^^ b.toUInt64) * fnvPrime) h

def splitmix64Finalise (z : UInt64) : UInt64 :=
  let z := (z ^^^ (z >>> 30)) * 0xbf58476d1ce4e5b9
  let z := (z ^^^ (z >>> 27)) * 0x94d049bb133111eb
  z ^^^ (z >>> 31)

/-- The score of a node for a stream. A zero byte separates the three names. -/
def weight (stream : StreamId) (node : NodeId) : UInt64 :=
  let h := fnv fnvOffset (utf8Bytes node.text)
  let h := fnv h [0]
  let h := fnv h (utf8Bytes stream.venue.asStr)
  let h := fnv h [0]
  let h := fnv h (utf8Bytes stream.symbol.text)
  splitmix64Finalise h

/-- By weight, and on a tie by the node id in reverse. -/
def candidateCmp (stream : StreamId) : NodeId → NodeId → Ordering :=
  compareLex (compareOn (weight stream)) (fun a b => NodeId.cmp b a)

instance (stream : StreamId) : Std.TransCmp (candidateCmp stream) :=
  inferInstanceAs (Std.TransCmp (compareLex _ _))

instance (stream : StreamId) : Std.LawfulEqCmp (candidateCmp stream) where
  eq_of_compare h := (Std.LawfulEqCmp.eq_of_compare (compareLex_eq_eq.mp h).2).symm

def owner (stream : StreamId) (nodes : List NodeId) : Option NodeId :=
  maxBy (candidateCmp stream) nodes

abbrev StreamSet := OrderedSet StreamId StreamId.cmp

def assignedTo (node : NodeId) (streams : List StreamId) (nodes : List NodeId) : StreamSet :=
  OrderedSet.ofKeys _ (streams.filter (fun stream => owner stream nodes = some node))

theorem mem_assignedTo {node : NodeId} {streams : List StreamId} {nodes : List NodeId}
    {stream : StreamId} :
    stream ∈ (assignedTo node streams nodes).members ↔
      stream ∈ streams ∧ owner stream nodes = some node := by
  simp [assignedTo, OrderedSet.mem_ofKeys]

theorem owner_mem {stream : StreamId} {nodes : List NodeId} {node : NodeId}
    (h : owner stream nodes = some node) : node ∈ nodes := maxBy_mem h

/-- Nodes that list each other cannot both be the owner. -/
theorem owner_agree {stream : StreamId} {nodes others : List NodeId} {a b : NodeId}
    (ha : owner stream nodes = some a) (hb : owner stream others = some b)
    (seen : b ∈ nodes) (seen' : a ∈ others) : a = b :=
  maxBy_agree ha hb seen' seen

theorem owner_isSome {stream : StreamId} {nodes : List NodeId} :
    (owner stream nodes).isSome ↔ nodes ≠ [] := by
  cases nodes with
  | nil => exact iff_of_false nofun (fun some_node => some_node rfl)
  | cons node nodes => exact iff_of_true rfl nofun

/-- What two readings of the membership have in common about a stream. -/
structure Independent (stream : StreamId) (nodes others : List NodeId) : Prop where
  owned : (owner stream nodes).isSome ↔ nodes ≠ []
  member : ∀ a, owner stream nodes = some a → a ∈ nodes
  agree : ∀ a b, owner stream nodes = some a → owner stream others = some b →
    a ∈ others → b ∈ nodes → a = b
  disjoint : ∀ a b streams more, a ∈ others → b ∈ nodes →
    stream ∈ (assignedTo a streams nodes).members →
    stream ∈ (assignedTo b more others).members → a = b
  order : (∀ n, n ∈ nodes ↔ n ∈ others) → owner stream nodes = owner stream others
  moved : ∀ a b, owner stream nodes = some a → owner stream others = some b → a ≠ b →
    b ∉ nodes ∨ a ∉ others

/-- A stream has an owner as soon as there is a node, the owner is a member, and a membership
that the owner belongs to changes it only for a node that was added. -/
theorem owner_independent (stream : StreamId) (nodes others : List NodeId) :
    Independent stream nodes others where
  owned := owner_isSome
  member _ own := owner_mem own
  agree _ _ own other seen seen' := owner_agree own other seen' seen
  disjoint _ _ _ _ seen seen' own other :=
    owner_agree (mem_assignedTo.mp own).2 (mem_assignedTo.mp other).2 seen' seen
  order same := by
    cases nodes with
    | nil =>
      have none_left : others = [] :=
        List.eq_nil_iff_forall_not_mem.mpr fun n mem => nomatch (same n).mpr mem
      rw [none_left]
    | cons node nodes =>
      obtain ⟨a, own⟩ := Option.isSome_iff_exists.mp
        (owner_isSome.mpr (List.cons_ne_nil node nodes))
      have kept : a ∈ others := (same a).mp (owner_mem own)
      obtain ⟨b, other⟩ := Option.isSome_iff_exists.mp
        (owner_isSome.mpr (List.ne_nil_of_mem kept))
      rw [own, other, owner_agree own other ((same b).mpr (owner_mem other)) kept]
  moved a b own other different := by
    by_contra both
    rw [not_or, not_not, not_not] at both
    exact different (owner_agree own other both.1 both.2)

example : owner ⟨.kraken, ⟨"BTC-USD"⟩⟩ [] = none := rfl

end StreamAssignment
