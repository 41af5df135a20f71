import Dugite.Lib.Listing
import Dugite.Lib.Reach
import Dugite.Primitives.Transaction
import Mathlib.Data.Prod.Lex

/-!
# The forest of governance proposals

The open proposals of each purpose form a tree under the last enacted action of that purpose: a
root with the proposals that continue it directly, and a graph of the deeper ones. The functions
here keep the forest; the flat map of proposals is kept by their callers.
-/

namespace Dugite

open GovActionId

/-- The purposes that have a lineage. -/
inductive GovPurpose where
  | pparam
  | hardFork
  | committee
  | constitution
  deriving DecidableEq

def govActionPurposeTag : GovAction → Option GovPurpose
  | .parameterChange _ _ _ => some .pparam
  | .hardForkInitiation _ _ => some .hardFork
  | .noConfidence _ => some .committee
  | .updateCommittee _ _ _ _ => some .committee
  | .newConstitution _ _ => some .constitution
  | .treasuryWithdrawals _ _ => none
  | .infoAction => none

/-- One value for each purpose. -/
structure GovRelation (T : Type) where
  (pparam hardFork committee constitution : T)

namespace GovRelation

variable {T : Type}

def get (r : GovRelation T) : GovPurpose → T
  | .pparam => r.pparam
  | .hardFork => r.hardFork
  | .committee => r.committee
  | .constitution => r.constitution

def set (r : GovRelation T) (purpose : GovPurpose) (value : T) : GovRelation T :=
  match purpose with
  | .pparam => { r with pparam := value }
  | .hardFork => { r with hardFork := value }
  | .committee => { r with committee := value }
  | .constitution => { r with constitution := value }

end GovRelation

structure PRoot where
  root : Option GovActionId := none
  children : Finset GovActionId := ∅

structure PEdges where
  parent : Option GovActionId
  children : Finset GovActionId

abbrev PGraph := FinMap GovActionId PEdges

/-- `proposal_roots` and `proposal_graph`. -/
structure ProposalForest where
  roots : GovRelation PRoot := ⟨{}, {}, {}, {}⟩
  graph : GovRelation PGraph := ⟨∅, ∅, ∅, ∅⟩

/-- The order of action ids: by transaction id, then by index. -/
def GovActionId.rank (id : GovActionId) : Nat ×ₗ Nat :=
  toLex (id.transactionId.toNat, id.actionIndex.toNat)

theorem GovActionId.rank_injective : Function.Injective rank := by
  rintro ⟨tx, idx⟩ ⟨tx', idx'⟩ h
  have hpair := Prod.mk.inj (toLex.injective h)
  obtain rfl : tx = tx' := BitVec.eq_of_toNat_eq hpair.1
  obtain rfl : idx = idx' := BitVec.eq_of_toNat_eq hpair.2
  rfl

/-- The ids of a set in ascending order. -/
def sortedIds (ids : Finset GovActionId) : List GovActionId :=
  Listing.listed rank rank_injective ids

/-- The root and the graph of one purpose, which the functions below read and write together. -/
structure PTree where
  root : PRoot := {}
  graph : PGraph := ∅

namespace PTree

variable (tree : PTree)

/-- The edges of a node with one more child. A child of the root has no node until a proposal names
it, and then gets one without a parent. -/
def edgesWith (nodes : PGraph) (id child : GovActionId) : PEdges :=
  match nodes.lookup id with
  | some edges => { edges with children := insert child edges.children }
  | none => ⟨none, {child}⟩

/-- `forest_add_proposal`: a child of the root, or a node under its parent. -/
def addProposal (actionId : GovActionId) (prevActionId : Option GovActionId) : PTree :=
  if prevActionId = tree.root.root then
    { tree with root := { tree.root with children := insert actionId tree.root.children } }
  else
    let nodes := tree.graph.insert actionId ⟨prevActionId, ∅⟩
    match prevActionId with
    | none => { tree with graph := nodes }
    | some parent =>
      { tree with graph := nodes.insert parent (edgesWith nodes parent actionId) }

variable (id : GovActionId)

/-- The direct children of a node; those of a child of the root are in the graph as well. -/
def childrenOf : List GovActionId :=
  match tree.graph.lookup id with
  | some edges => sortedIds edges.children
  | none => []

/-- `collect_descendants`: a child that is already collected is not entered again, so that no path
is longer than the graph has nodes. -/
def collectDescendants (out : Finset GovActionId) : Finset GovActionId :=
  Reach.collect tree.childrenOf (tree.graph.size + 1) id out

/-- Take a node out of the children of its parent. -/
def dropChild (nodes : PGraph) (parent : Option GovActionId) (child : GovActionId) : PGraph :=
  match parent with
  | none => nodes
  | some parent => match nodes.lookup parent with
    | none => nodes
    | some edges => nodes.insert parent { edges with children := edges.children.erase child }

/-- `forest_remove_node`: out of the children of the root, out of the graph and out of the children
of its parent. -/
def removeNode : PTree where
  root := { tree.root with children := tree.root.children.erase id }
  graph := match tree.graph.lookup id with
    | none => tree.graph
    | some edges => dropChild (tree.graph.erase id) edges.parent id

/-- Cut a node off from its parent. -/
def orphan (nodes : PGraph) (id : GovActionId) : PGraph :=
  match nodes.lookup id with
  | some edges => nodes.insert id { edges with parent := none }
  | none => nodes

/-- `forest_promote_root`: the enacted action is the new root, and its children become the children
of the root. -/
def promoteRoot (enactedId : GovActionId) : PTree :=
  match tree.graph.lookup enactedId with
  | none => { tree with root := ⟨some enactedId, ∅⟩ }
  | some edges =>
    { root := ⟨some enactedId, edges.children⟩
      graph := (sortedIds edges.children).foldl orphan (tree.graph.erase enactedId) }

end PTree

namespace ProposalForest

variable (forest : ProposalForest)

section
variable (purpose : GovPurpose)

def tree : PTree := ⟨forest.roots.get purpose, forest.graph.get purpose⟩

def setTree (tree : PTree) : ProposalForest :=
  ⟨forest.roots.set purpose tree.root, forest.graph.set purpose tree.graph⟩

/-- Change the tree of one purpose. -/
def modify (f : PTree → PTree) : ProposalForest := forest.setTree purpose (f (forest.tree purpose))

end

theorem tree_modify (purpose purpose' : GovPurpose) (f : PTree → PTree) :
    (forest.modify purpose f).tree purpose' =
      if purpose' = purpose then f (forest.tree purpose) else forest.tree purpose' := by
  cases purpose <;> cases purpose' <;> rfl

end ProposalForest

/-! ## What the operations do to a tree -/

open Option Finset FinMap

theorem mem_sortedIds {ids : Finset GovActionId} {id : GovActionId} :
    id ∈ sortedIds ids ↔ id ∈ ids :=
  Listing.mem_listed GovActionId.rank_injective

namespace PTree

variable (tree : PTree)

theorem lookup_dropChild (nodes : PGraph) (parent : Option GovActionId) (child k : GovActionId) :
    (dropChild nodes parent child).lookup k = (nodes.lookup k).map fun edges =>
      if parent = some k then { edges with children := edges.children.erase child } else edges := by
  cases parent with
  | none => simp [dropChild]
  | some parent =>
  rw [dropChild]
  cases hnode : nodes.lookup parent with
  | none =>
    by_cases hk : parent = k
    · rw [← hk, hnode]
      rfl
    · simp [hk]
  | some edges =>
  by_cases hk : k = parent
  · subst hk
    simp [hnode]
  · simp [hk, Ne.symm hk]

/-- A node that is removed is gone from the graph and from the children of its parent. -/
theorem lookup_graph_removeNode (id k : GovActionId) : (tree.removeNode id).graph.lookup k =
      if k = id then none
      else (tree.graph.lookup k).map fun edges =>
        if (tree.graph.lookup id).bind (·.parent) = some k then
          { edges with children := edges.children.erase id }
        else edges := by
  rw [removeNode]
  cases hid : tree.graph.lookup id with
  | none =>
    by_cases hk : k = id
    · rw [if_pos hk, hk]
      exact hid
    · simp [hk]
  | some edges =>
  simp only [lookup_dropChild, lookup_erase_ite, bind_some]
  split_ifs <;> rfl

section Add
variable {tree} {id q : GovActionId} (hdeep : some q ≠ tree.root.root)
include hdeep

/-- A proposal that does not continue the root gets a node, and what it names has one more child. -/
theorem lookup_graph_addProposal (hq : q ≠ id) (k : GovActionId) :
    (tree.addProposal id (some q)).graph.lookup k = if k = q then some (edgesWith tree.graph q id)
      else if k = id then some ⟨some q, ∅⟩ else tree.graph.lookup k := by
  have hedges : edgesWith (tree.graph.insert id ⟨some q, ∅⟩) q id = edgesWith tree.graph q id := by
    rw [edgesWith, edgesWith, lookup_insert_ite, if_neg hq]
  rw [addProposal, if_neg hdeep, ← hedges]
  dsimp only
  rw [lookup_insert_ite, lookup_insert_ite]

end Add

variable {tree}

theorem mem_childrenOf_iff {x c : GovActionId} : c ∈ tree.childrenOf x ↔
    ∃ edges, tree.graph.lookup x = some edges ∧ c ∈ edges.children := by
  rw [childrenOf]
  cases tree.graph.lookup x with
  | none => simp
  | some edges => simp [mem_sortedIds]

theorem mem_children_edgesWith {id q c : GovActionId} :
    c ∈ (edgesWith tree.graph q id).children ↔ c ∈ tree.childrenOf q ∨ c = id := by
  rw [edgesWith, mem_childrenOf_iff]
  cases tree.graph.lookup q with
  | none => simp
  | some edges => simp [or_comm]

end PTree

end Dugite
