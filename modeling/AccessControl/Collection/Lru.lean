/-!
# Least recently used memory

An `Lru` keeps up to `capacity` entries in the order of their last use, the latest first.  `get?`
and `put` count as a use, `contains` does not; a new key in a full table drops the entry that was
not used for longest.  The keys by which entries can be found are kept apart from the entries
(`Lru.index`): a key that is not equal to itself is never found again, neither by a user nor when
its entry is dropped.  For keys with a lawful equality the index holds the keys of the entries.
-/

namespace AccessControl

/-- A table of at most `capacity` entries. -/
structure Lru (κ ν : Type) where
  capacity : Nat
  /-- The entries, the one used last first. -/
  entries : List (κ × ν) := []
  /-- The keys under which entries are known. -/
  index : List κ := []
  hits : Nat := 0
  misses : Nat := 0
  evictions : Nat := 0

namespace Lru

variable {κ ν : Type} [BEq κ]

/-- The table without entries; it has room for one entry at least. -/
def ofCapacity (capacity : Nat) : Lru κ ν := { capacity := max capacity 1 }

/-- The number of known keys. -/
def size (c : Lru κ ν) : Nat := c.index.length

/-- Whether a key is known. -/
def contains (c : Lru κ ν) (key : κ) : Bool := c.index.any (· == key)

/-- The entry of a known key. -/
def entry? (c : Lru κ ν) (key : κ) : Option (κ × ν) :=
  if c.contains key then c.entries.find? (·.1 == key) else none

/-- The entries without that of a key. -/
def others (c : Lru κ ν) (key : κ) : List (κ × ν) := c.entries.eraseP (·.1 == key)

/-- The value of a key, which thereby is the one used last. -/
def get? (c : Lru κ ν) (key : κ) : Option ν × Lru κ ν :=
  match c.entry? key with
  | some e => (some e.2, { c with entries := e :: c.others key, hits := c.hits + 1 })
  | none => (none, { c with misses := c.misses + 1 })

/-- The table without the entry that was not used for longest. -/
def dropOldest (c : Lru κ ν) : Lru κ ν :=
  match c.entries.getLast? with
  | some e =>
    { c with
      entries := c.entries.dropLast
      index := c.index.eraseP (· == e.1)
      evictions := c.evictions + 1 }
  | none => c

/-- The table after dropping its `n` oldest entries. -/
def dropOldestN : Nat → Lru κ ν → Lru κ ν
  | 0, c => c
  | n + 1, c => dropOldestN n c.dropOldest

/-- The table with room for one more entry. -/
def withRoom (c : Lru κ ν) : Lru κ ν := dropOldestN (c.entries.length + 1 - c.capacity) c

/-- The table with a value under a key, which thereby is the one used last. -/
def put (c : Lru κ ν) (key : κ) (value : ν) : Lru κ ν :=
  match c.entry? key with
  | some e => { c with entries := (e.1, value) :: c.others key }
  | none =>
    let r := c.withRoom
    { r with entries := (key, value) :: r.entries, index := key :: r.index }

/-- The table without a key, and whether it was known. -/
def erase (c : Lru κ ν) (key : κ) : Bool × Lru κ ν :=
  if c.contains key then
    (true, { c with entries := c.others key, index := c.index.eraseP (· == key) })
  else (false, c)

/-- The table without entries; its counters stay. -/
def clear (c : Lru κ ν) : Lru κ ν := { c with entries := [], index := [] }

end Lru

end AccessControl
