import AccessControl.Store.Basic

/-!
# Feeds

A `Feed` goes through a store page by page, each page of the same size, up to the first empty page.
`Feed.forEach` shows each policy to a visitor, who may stop it; `Feed.collect` lists the policies.
The number of pages is bounded by the number of policies that the world keeps for the store.
-/

namespace AccessControl

/-- A store that is read in pages of `batch` policies. -/
structure Feed (σ : Type) where
  store : Store σ
  batch : UInt64

namespace Feed

variable {σ α : Type}

/-- The feed of a store; its pages have one policy at least. -/
def ofStore (store : Store σ) (batch : UInt64) : Feed σ := ⟨store, if batch = 0 then 1 else batch⟩

/-- The size of a page as the store is asked for it. -/
def limit (f : Feed σ) : Int64 := f.batch.toInt64

/-- What a visitor has come to: what it gathered, how many policies it saw, and whether it goes on. -/
structure Progress (α : Type) where
  gathered : α
  visited : Nat := 0
  goesOn : Bool := true

/-- Shows the policies of a page to a visitor, who tells whether to go on. -/
def visitPage (visit : α → Policy → Run Failure σ (α × Bool)) :
    List Policy → Progress α → Run Failure σ (Progress α)
  | [], progress => return progress
  | p :: rest, progress => do
    let (gathered, goesOn) ← visit progress.gathered p
    let progress := { gathered, visited := progress.visited + 1, goesOn }
    if goesOn then visitPage visit rest progress else return progress

/-- Shows at most `pages` pages from `offset` on to a visitor. -/
def visitPages (f : Feed σ) (visit : α → Policy → Run Failure σ (α × Bool)) :
    (pages : Nat) → (offset : Int64) → Progress α → Run Failure σ (Progress α)
  | 0, _, progress => return progress
  | pages + 1, offset, progress => do
    let page ← f.store.getAll f.limit offset
    if page.isEmpty then return progress
    let progress ← visitPage visit page progress
    if progress.goesOn then visitPages f visit pages (offset + f.limit) progress else return progress

/-- Shows the policies of the store to a visitor. -/
def forEach (f : Feed σ) (start : α) (visit : α → Policy → Run Failure σ (α × Bool)) :
    Run Failure σ (Progress α) := do
  f.visitPages visit (f.store.extent (← MonadState.get) + 1) 0 { gathered := start }

/-- The policies of the store. -/
def collect (f : Feed σ) : Run Failure σ (List Policy) := do
  return (← f.forEach [] fun seen p => return (seen ++ [p], true)).gathered

/-- Goes through the store up to the policy that makes those seen as many as `most`: the policies
seen, and how many were visited unless the store failed. -/
def first (f : Feed σ) (most : Option Nat) : StateM σ (Except Failure Nat × List Policy) := fun s =>
  let beside : Feed (σ × List Policy) := { f with store := f.store.within Place.fst }
  let (outcome, s, seen) := beside.forEach () (fun _ p (s, seen) =>
    (.ok ((), most.all fun n => seen.length + 1 < n), (s, seen ++ [p]))) (s, [])
  ((outcome.map (·.visited), seen), s)

end Feed

end AccessControl
