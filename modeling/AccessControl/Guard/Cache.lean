import AccessControl.Collection.Lru
import AccessControl.Store.Basic

/-!
# Remembered answers

A `GuardCache` remembers what a store answered to inquiries.  A lookup has two halves:
`GuardCache.lookup` serves an answer unless the cache is stale, and `GuardCache.remember` keeps what
the store answered unless the cache was invalidated in between, which its generation tells.
`GuardCache.find` is both halves around a call of the store.  A stale cache serves nothing but
remembers; a change of the policies empties the cache and makes it fresh.
-/

namespace AccessControl

namespace GuardCache

/-- What is remembered together: the inquiry and the number of the kind of checker. -/
structure Key where
  inquiry : Inquiry
  checker : Nat

namespace Key

/-- The number that stands for no checker. -/
def noChecker : Nat := 255

/-- The key of an inquiry by a checker of some kind. -/
def of (q : Inquiry) (kind : Option CheckerKind) : Key := ⟨q, kind.elim noChecker CheckerKind.number⟩

/-- The hash code of a key. -/
def hash (k : Key) : UInt64 :=
  HashFamily.combine (k.inquiry.hash .standard) (UInt64.ofNat k.checker)

/-- Keys count as the same if they are equal and so are their hash codes, since a table looks for a key
only where the code of the key leads it.  This tells equal keys apart that have different codes: inquiries
where an integer next to `2 ^ 63` stands against that number as a floating point number.  A table of
buckets that compares the keys of a bucket without their codes finds such a key as well, but only while
both codes happen to share a bucket, so what it then finds depends on the number of its buckets. -/
instance : BEq Key :=
  ⟨fun a b => a.hash == b.hash && a.inquiry == b.inquiry && a.checker == b.checker⟩

end Key

end GuardCache

/-- What a store answered, by inquiry and kind of checker. -/
structure GuardCache where
  stale : Bool := true
  /-- How often the cache was invalidated. -/
  generation : Nat := 0
  table : Lru GuardCache.Key (List (Option Policy))

namespace GuardCache

/-- How many answers are remembered unless it is chosen. -/
def defaultCapacity : Nat := 1024

/-- The stale cache without answers. -/
def ofCapacity (capacity : Nat) : GuardCache := { table := Lru.ofCapacity capacity }

/-- The number of answers. -/
def size (c : GuardCache) : Nat := c.table.size

/-- The cache that serves nothing until it is fresh. -/
def markStale (c : GuardCache) : GuardCache := { c with stale := true }

/-- The cache that serves what it remembers. -/
def markFresh (c : GuardCache) : GuardCache := { c with stale := false }

/-- The cache without answers. -/
def invalidate (c : GuardCache) : GuardCache :=
  { c with table := c.table.clear, generation := c.generation + 1 }

/-- The cache after a change of the policies. -/
def policiesChanged (c : GuardCache) : GuardCache := c.invalidate.markFresh

/-- The answer to serve, if there is one. -/
def lookup (c : GuardCache) (key : Key) : Option (List (Option Policy)) × GuardCache :=
  if c.stale then (none, c)
  else
    let (answer, table) := c.table.get? key
    (answer, { c with table })

/-- The cache with an answer to a lookup that began in a generation. -/
def remember (c : GuardCache) (key : Key) (generation : Nat) (answer : List (Option Policy)) :
    GuardCache :=
  if c.generation = generation then { c with table := c.table.put key answer } else c

/-- The answer of a store to an inquiry, remembered or new. -/
def find {σ : Type} (cache : Place σ GuardCache) (store : Store σ) (q : Inquiry)
    (kind : Option CheckerKind) : Run Failure σ (List (Option Policy)) := do
  let key := Key.of q kind
  let generation := (← cache.get).generation
  match ← cache.run fun c => let (answer, c) := c.lookup key; (.ok answer, c) with
  | some answer => return answer
  | none =>
    let answer ← store.find q kind
    cache.modify (·.remember key generation answer)
    return answer

end GuardCache

end AccessControl
