import Dugite.Storage.VolatileDB

/-!
# The Limit on Eagerness

While a node syncs, a candidate chain may be adopted only up to `k` blocks past the tip of the
fragment that its peers agree on. `loeVerdictForCandidate` walks a candidate's ancestry until it
meets that fragment; the walk keeps the last `k` blocks it has passed, so that a candidate too far
ahead is trimmed to the block `k` past the fragment's tip.

The published state is read as it is when a message is processed; the cache of the view by the
address of the published value is left out, and so are the slots of the fragment's points.
-/

namespace Dugite

inductive LoeState where
  | disabled
  | selectionTip (k : Nat)
  | fragment (anchor : Option Hash32) (entries : List Hash32) (k : Nat)
  deriving DecidableEq

structure LoeView where
  disabled : Bool
  members : Finset Hash32
  tipHash : Option Hash32
  k : Nat
  deriving DecidableEq

inductive LoeVerdict where
  | allowed
  | trimmedTo (hash : Hash32)
  | deferred
  deriving DecidableEq

namespace LoeView

def build : LoeState → LoeView
  | .disabled => { disabled := true, members := ∅, tipHash := none, k := u64Max }
  | .selectionTip k => { disabled := false, members := ∅, tipHash := none, k }
  | .fragment anchor entries k =>
    { disabled := false
      members := entries.toFinset ∪ anchor.toFinset
      tipHash := entries.getLast?.or anchor
      k }

variable (view : LoeView)

def isMember (hash : Hash32) : Bool := hash ∈ view.members

def isTip (hash : Hash32) : Bool := view.tipHash = some hash

/-- The tip of the fragment is `parent`, or it is Origin and `parent` lies outside the volatile
database. -/
def tipHit (volatile : VolatileDB) (parent : Hash32) : Bool :=
  view.isTip parent || (view.tipHash.isNone && !volatile.hasBlock parent)

end LoeView

/-- The last `k` blocks of the walk, newest last. -/
def pushWindow (k : Nat) (window : List Hash32) (hash : Hash32) : List Hash32 :=
  if 0 < k ∧ window.length = k then window.tail ++ [hash] else window ++ [hash]

/-- The loop of `loe_verdict_for_candidate`; its fuel is the cycle guard of the source. -/
def loeWalk (volatile : VolatileDB) (view : LoeView) : Nat → List Hash32 → Nat → Hash32 → LoeVerdict
  | 0, _, _, _ => .deferred
  | fuel + 1, window, depth, cur =>
    match volatile.blocks.lookup cur with
    | none => .deferred
    | some block =>
      let window := pushWindow view.k window cur
      let depth := depth + 1
      let parent := block.prevHash
      let tipHit := view.tipHit volatile parent
      let anchorExit := !tipHit && view.members = ∅ && !view.isMember parent &&
        !volatile.hasBlock parent
      if tipHit || anchorExit then
        if depth ≤ view.k then .allowed
        else match window.head? with
          | some t => if 0 < view.k then .trimmedTo t else .deferred
          | none => .deferred
      -- the candidate leaves the fragment below its tip
      else if view.isMember parent then .deferred
      else if !volatile.hasBlock parent then .deferred
      else loeWalk volatile view fuel window depth parent

variable (volatile : VolatileDB)

def loeVerdictForCandidate (candidateTip : Hash32) (view : LoeView) : LoeVerdict :=
  if view.disabled then .allowed
  else if view.isMember candidateTip then .allowed
  else loeWalk volatile view (volatile.blocks.size + 1) [] 0 candidateTip

/-- The loop of `depth_past_loe_tip`. -/
def depthWalk (volatile : VolatileDB) (view : LoeView) : Nat → Nat → Hash32 → Option Nat
  | 0, _, _ => none
  | fuel + 1, depth, cur =>
    match volatile.blocks.lookup cur with
    | none => none
    | some block =>
      let parent := block.prevHash
      if view.tipHit volatile parent then some depth
      else if view.isMember parent then none
      else if !volatile.hasBlock parent then
        if view.members = ∅ then some depth else none
      else depthWalk volatile view fuel (depth + 1) parent

/-- The number of blocks from the fragment's tip to a block that descends from it. -/
def depthPastLoeTip (hash : Hash32) (view : LoeView) : Option Nat :=
  if view.isMember hash then some 0
  else depthWalk volatile view (satAdd (satAdd view.k view.members.card) 2) 1 hash

/-- Whether the selected chain may be extended by a block whose parent is its tip. -/
def loeAllowsExtension (newHash newPrev : Hash32) (view : LoeView) : Bool :=
  if view.disabled then true
  else if view.isMember newHash then true
  else if view.tipHit volatile newPrev then 1 ≤ view.k
  else if view.isMember newPrev then false
  else match depthPastLoeTip volatile newPrev view with
    | some d => d < view.k
    | none => false

end Dugite
