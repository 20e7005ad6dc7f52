import Outband.Foundation.Checked
import Outband.Ilo.Dvc.Tables

/-!
# The colour cache of the DVC decoder

Seventeen slots hold a colour, its usage rank (0 is the most recent) and a mark
for use in the current block. The slots themselves are never sorted; the order
is in `ccUsage` alone. The functions also keep the two places that hold the
width of a cache index: `pixcode` and entry `pixfan` of the table `next1`.
-/

namespace Outband.Ilo.Dvc

open Foundation

/-- The fields of the decoder that the cache functions read and write. -/
structure ColorCache where
  ccActive : Nat := 0
  ccColor : Fin 17 → Nat := fun _ => 0
  ccUsage : Fin 17 → Nat := fun _ => 0
  ccBlock : Fin 17 → Nat := fun _ => 0
  pixcode : State := .latched
  next1 : State → State := next1Init

namespace ColorCache

def cacheReset (c : ColorCache) : ColorCache := { c with ccActive := 0 }

/-- The state that reads an index into a cache with `active` entries. -/
def pixcodeFor (active : Nat) : State :=
  if active < 2 then .latched
  else if active = 2 then .pixlru0
  else if active = 3 then .pixcode1
  else if active < 6 then .pixcode2
  else if active < 10 then .pixcode3
  else .pixcode4

/-- Store the index width for `active` entries in both of its places. -/
def setPixcode (c : ColorCache) (active : Nat) : ColorCache :=
  { c with
    pixcode := pixcodeFor active
    next1 := Function.update c.next1 .pixfan (pixcodeFor active) }

/-- `if d.ccUsage[i] < threshold { d.ccUsage[i]++ }` -/
def bumpBelow (threshold i : Nat) (usage : Fin 17 → Nat) : Except Site (Fin 17 → Nat) := do
  let u ← rd .ccUsage usage i
  if u < threshold then wr .ccUsage usage i (u + 1) else pure usage

/-- The search loop of `cacheLRU`: the slot of the colour and 1, or the slot
with the last rank and 0. `n` rounds remain, `i` is the counter. -/
def lruSearch (c : ColorCache) (color : Nat) : Nat → Nat → Nat → Except Site (Nat × Nat)
  | 0, _, idx => .ok (idx, 0)
  | n + 1, i, idx => do
      let col ← rd .ccColor c.ccColor i
      if color = col then pure (i, 1)
      else do
        let u ← rd .ccUsage c.ccUsage i
        lruSearch c color n (i + 1) (if u = c.ccActive - 1 then i else idx)

/-- The branch of `cacheLRU` for a colour that is not cached: a new slot while
there is one, else the slot found by the search. Also returns the threshold. -/
def lruInsert (c : ColorCache) (color idx threshold : Nat) :
    Except Site (ColorCache × Nat × Nat) := do
  let active := c.ccActive
  let (c, idx, threshold) :=
    if active < 17 then ({ c with ccActive := active + 1 }.setPixcode (active + 1), active, active)
    else (c, idx, threshold)
  let colors ← wr .ccColor c.ccColor idx color
  pure ({ c with ccColor := colors }, idx, threshold)

/-- The common end of `cacheLRU` and `cacheFind`: mark slot `idx`, move the ranks
below the threshold up by one and give rank 0 to the slot. -/
def promote (c : ColorCache) (idx threshold : Nat) : Except Site ColorCache := do
  let block ← wr .ccBlock c.ccBlock idx 1
  let usage ← forUp (bumpBelow threshold) 0 c.ccActive c.ccUsage
  let usage ← wr .ccUsage usage idx 0
  pure { c with ccBlock := block, ccUsage := usage }

/-- Use `color`: 1 when it was cached, 0 when it had to be inserted. -/
def cacheLRU (c : ColorCache) (color : Nat) : Except Site (ColorCache × Nat) := do
  let (idx, found) ← lruSearch c color c.ccActive 0 0
  let threshold ← rd .ccUsage c.ccUsage idx
  if found = 0 then do
    let (c, idx, threshold) ← lruInsert c color idx threshold
    let c ← promote c idx threshold
    pure (c, found)
  else do
    let c ← promote c idx threshold
    pure (c, found)

/-- The loop of `cacheFind`; `n` rounds remain, `i` is the counter. -/
def findFrom (c : ColorCache) (index : Nat) : Nat → Nat → Except Site (ColorCache × Int)
  | 0, _ => .ok (c, -1)
  | n + 1, i => do
      let u ← rd .ccUsage c.ccUsage i
      if index = u then do
        let color ← rd .ccColor c.ccColor i
        let c ← promote c i index
        pure (c, (color : Int))
      else findFrom c index n (i + 1)

/-- The colour with rank `index`, or -1 when no slot has it. -/
def cacheFind (c : ColorCache) (index : Nat) : Except Site (ColorCache × Int) :=
  findFrom c index c.ccActive 0

/-- The loop of `cachePrune`: slots below `i` are kept, slots from `n` on are dropped. -/
def pruneLoop : Nat → Nat → Nat → ColorCache → Except Site (ColorCache × Nat)
  | 0, _, n, c => .ok (c, n)
  | rounds + 1, i, n, c =>
      if i < n then do
        let mark ← rd .ccBlock c.ccBlock i
        if mark = 0 then do
          let blk ← rd .ccBlock c.ccBlock (n - 1)
          let block ← wr .ccBlock c.ccBlock i blk
          let col ← rd .ccColor c.ccColor (n - 1)
          let color ← wr .ccColor c.ccColor i col
          let use ← rd .ccUsage c.ccUsage (n - 1)
          let usage ← wr .ccUsage c.ccUsage i use
          pruneLoop rounds i (n - 1) { c with ccBlock := block, ccColor := color, ccUsage := usage }
        else do
          let block ← wr .ccBlock c.ccBlock i (mark - 1)
          pruneLoop rounds (i + 1) n { c with ccBlock := block }
      else .ok (c, n)

/-- Drop the entries not used since the last prune. Every round of the loop
settles one slot, so `ccActive` rounds are all it takes. -/
def cachePrune (c : ColorCache) : Except Site ColorCache := do
  let (c, n) ← pruneLoop c.ccActive 0 c.ccActive c
  pure ({ c with ccActive := n }.setPixcode n)

end ColorCache

end Outband.Ilo.Dvc
