import AccessControl.Store.Feed

/-!
# Stores of two tiers

A store of two tiers writes to its primary tier first and then to its cache tier, and reads from its
cache tier first.  Some refusals of the primary tier do not keep a change from the cache tier
(`TwoTier.tolerating`).  An answer of the cache tier that is empty, or a refusal of it, is a miss,
and the primary tier is asked (`TwoTier.readThrough`).  Exceptions of either tier pass through.
-/

namespace AccessControl.TwoTier

variable {σ α : Type}

/-- A change of the primary tier, refusals of the given classes counting as done. -/
def tolerating (codes : List ErrorCode) (change : Run Failure σ Unit) : Run Failure σ Unit :=
  tryCatch change fun failure =>
    match failure with
    | .refused e => if codes.contains e.code then return else throw failure
    | .escaped _ => throw failure

/-- The answer of the cache tier, or that of the primary tier if it is a miss. -/
def readThrough (isMiss : α → Bool) (cache primary : Run Failure σ α) : Run Failure σ α := do
  let cached ← tryCatch (some <$> cache) fun failure =>
    match failure with
    | .refused _ => return none
    | .escaped _ => throw failure
  match cached with
  | some a => if isMiss a then primary else return a
  | none => primary

/-- The store of a primary tier and a cache tier. -/
def store (primary cache : Store σ) : Store σ where
  add p := do
    tolerating [.policyExists] (primary.add p)
    cache.add p
  get uid := readThrough Option.isNone (cache.get uid) (primary.get uid)
  getAll limit offset :=
    readThrough List.isEmpty (cache.getAll limit offset) (primary.getAll limit offset)
  find q kind := readThrough List.isEmpty (cache.find q kind) (primary.find q kind)
  update p := do
    tolerating [.policyNotFound, .policyUpdate, .policyExists, .policyCreation] (primary.update p)
    cache.update p
  remove uid := do
    tolerating [.policyNotFound, .policyDeletion] (primary.remove uid)
    cache.remove uid
  extent s := primary.extent s + cache.extent s

/-- Stores a policy in the cache tier and counts it, unless one with its identifier is there. -/
def load (cache : Store σ) (loaded : Nat) (p : Policy) : Run Failure σ (Nat × Bool) :=
  tryCatch (do
      cache.add (some p)
      return (loaded + 1, true))
    fun failure =>
      match failure with
      | .refused e => if e.code = .policyExists then return (loaded, true) else throw failure
      | .escaped _ => throw failure

/-- Stores the policies of the primary tier in the cache tier, in pages of `batch` policies, and
tells how many were new there. -/
def populate (primary cache : Store σ) (batch : UInt64) : Run Failure σ Nat := do
  let feed := Feed.ofStore { primary with extent := (store primary cache).extent } batch
  return (← feed.forEach 0 (load cache)).gathered

end AccessControl.TwoTier
