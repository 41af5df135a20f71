import Dugite.Network.ConnectionManager

/-!
# The peer governor

Once per tick `compute_actions_with_blp` compares the table of known peers with the targets and
returns a list of actions. It runs through its passes in a fixed order: local roots, big ledger
peers, the aggregate targets, demotions, and the three churn timers. The peer table is only read.

Hash tables and sets are listed in an order of their own, and one peer is drawn at random; both are
in `Choices`. The readings of the clock are inputs (`Clock`); those taken while peers are ranked by
what was fetched from them are one, and so are the two taken when a churn timer fires. Scores are
floating-point numbers; of two that do not compare, neither is greater. Fields of a peer that the
governor does not read are left out, and so is logging.
-/

namespace Dugite.Peers

open Connections (SocketAddr)

/-- How far a connection to a peer has got. -/
inductive PeerState where
  | cold
  | cooling
  | warm
  | hot
  deriving DecidableEq

/-- Where the node knows a peer from. -/
inductive PeerSource where
  | topology
  | dns
  | ledger
  | peerSharing
  deriving DecidableEq

/-- What the governor reads of a peer. -/
structure PeerInfo where
  state : PeerState := .cold
  latencyMs : Option Float := none
  fetchedBytes : List (Nat × Nat) := []
  reputation : Float := 0.5
  failureCount : Nat := 0
  peerSharing : Bool := false
  source : PeerSource
  nextConnectAfter : Option Nat := none

def fetchynessWindow : Nat := 3600

section
variable (p : PeerInfo)

/-- The bytes fetched from a peer in the last hour. -/
def PeerInfo.fetchynessBytes (now : Nat) : Nat :=
  ((p.fetchedBytes.filter fun s => now - s.1 < fetchynessWindow).map (·.2)).sum % 2 ^ 64

def PeerInfo.established : Bool := p.state = .warm ∨ p.state = .hot

/-! ## Scores -/

/-- The score of a peer in floating point, as the source computes it. -/
def peerScore : Float :=
  let latencyScore := match p.latencyMs with
    | some ms => 1.0 / (1.0 + ms / 200.0)
    | none => 0.5
  let failures := 1.0 - p.failureCount.toFloat * 0.1
  let failureScore := if failures < 0.0 then 0.0 else failures
  0.4 * p.reputation + 0.4 * latencyScore + 0.2 * failureScore

/-- While syncing in bulk, hot peers are ranked by what they have delivered. -/
def hotDemotionRank (bulkSync : Bool) (now : Nat) : Float :=
  if bulkSync then (p.fetchynessBytes now).toFloat else peerScore p

end

/-- Numbers that do not compare count as equal. -/
def compareScores (a b : SocketAddr × Float) : Ordering :=
  if a.2 < b.2 then .lt else if b.2 < a.2 then .gt else .eq

section
variable {α : Type} (cmp : α → α → Ordering)

/-- The last of the greatest. -/
def maxBy : List α → Option α
  | [] => none
  | x :: xs => some (xs.foldl (fun best y => if cmp best y = .gt then best else y) x)

/-- The first of the least. -/
def minBy : List α → Option α
  | [] => none
  | x :: xs => some (xs.foldl (fun best y => if cmp best y = .gt then y else best) x)

/-- A stable sort (`sort_by`). -/
def sortBy (l : List α) : List α := l.insertionSort fun a b => cmp a b ≠ .gt

end

/-! ## The peer table -/

/-- The known peers. -/
structure PeerManager where
  peers : FinMap SocketAddr PeerInfo := ∅

namespace PeerManager

variable (pm : PeerManager) (order : Listing.Enumeration SocketAddr)

def getPeer (a : SocketAddr) : Option PeerInfo := pm.peers.lookup a

/-- Known, with a property. -/
def has (p : PeerInfo → Bool) (a : SocketAddr) : Bool := (pm.getPeer a).any p

def countByState (s : PeerState) : Nat :=
  (pm.peers.keys.filter fun a => pm.has (·.state = s) a).card

/-- The peers in a state, in the order of the table. -/
def peersInState (s : PeerState) : List SocketAddr :=
  (order.list pm.peers.keys).filter (pm.has (·.state = s))

/-- Cold, and past the time before which no new attempt is made. -/
def eligible (now : Nat) (p : PeerInfo) : Bool := p.state = .cold ∧ p.nextConnectAfter.all (now ≥ ·)

/-- The cold peers that are not backing off. -/
def peersEligibleToConnect (now : Nat) : List SocketAddr :=
  (order.list pm.peers.keys).filter (pm.has (eligible now))

def peersWithPeerSharing (s : PeerState) : List SocketAddr :=
  (order.list pm.peers.keys).filter (pm.has fun p => p.state = s ∧ p.peerSharing)

/-- Peers with a score, those without one left out. -/
def scored (score : SocketAddr → PeerInfo → Option Float) (l : List SocketAddr) :
    List (SocketAddr × Float) :=
  l.filterMap fun a => (pm.getPeer a).bind fun p => (score a p).map (a, ·)

/-- The hot peer that churn gives up. -/
def selectWorstHot (bulkSync : Bool) (exclude : SocketAddr → Bool) (now : Nat) :
    Option SocketAddr :=
  (minBy compareScores (pm.scored (fun a p => if exclude a then none
    else if p.source = .topology then none else some (hotDemotionRank p bulkSync now))
    (pm.peersInState order .hot))).map (·.1)

/-- The cold peers to forget. -/
def selectLowestReputationCold (count : Nat) (exclude : Finset SocketAddr) : List SocketAddr :=
  ((sortBy compareScores (pm.scored (fun a p => if a ∈ exclude then none
    else if p.source = .topology then none else some p.reputation)
    (pm.peersInState order .cold))).take count).map (·.1)

/-- The warm peer that churn gives up; those of the topology stay. -/
def selectWorstWarm : Option SocketAddr :=
  (minBy compareScores (pm.scored (fun _ p => if p.source = .topology then none
    else some (peerScore p)) (pm.peersInState order .warm))).map (·.1)

def selectBestWarm : Option SocketAddr :=
  (maxBy compareScores (pm.scored (fun _ p => some (peerScore p))
    (pm.peersInState order .warm))).map (·.1)

/-- The cold peer that churn takes up. -/
def selectBestColdEligible (now : Nat) : Option SocketAddr :=
  (maxBy compareScores (pm.scored (fun _ p => some (peerScore p))
    ((pm.peersInState order .cold).filter (· ∈ pm.peersEligibleToConnect order now)))).map (·.1)

end PeerManager

/-! ## The governor -/

/-- How many peers of each kind are wanted. -/
structure PeerTargets where
  targetWarm : Nat := 30
  targetHot : Nat := 20
  maxCold : Nat := 150
  targetWarmBigLedger : Nat := 5
  targetHotBigLedger : Nat := 5

structure GovernorConfig where
  targets : PeerTargets := {}
  hotChurnInterval : Nat := 3300
  bulkSyncChurnInterval : Nat := 900
  coldChurnInterval : Nat := 900
  warmChurnInterval : Nat := 600
  demoteCooldown : Nat := 300

/-- A group of configured peers and how many of them are to be warm and hot. -/
structure LocalRootGroupTarget where
  members : Finset SocketAddr
  warmValency : Nat
  hotValency : Nat

/-- What a tick asks the peer manager to do. -/
inductive GovernorAction where
  | promoteToWarm (a : SocketAddr)
  | promoteToHot (a : SocketAddr)
  | demoteToWarm (a : SocketAddr)
  | demoteToCold (a : SocketAddr)
  | discoverMore
  | forgetPeer (a : SocketAddr)
  | peerShareRequest (a : SocketAddr)
  deriving DecidableEq

/-- What the governor keeps from tick to tick. -/
structure Governor where
  config : GovernorConfig := {}
  lastHotChurn : Nat := 0
  lastColdChurn : Nat := 0
  lastWarmChurn : Nat := 0
  inProgressPromoteCold : Finset SocketAddr := ∅
  inProgressPromoteWarm : Finset SocketAddr := ∅
  recentlyDemoted : FinMap SocketAddr Nat := ∅
  bulkSyncMode : Bool := false
  syncTrustedOnly : Option (Finset SocketAddr) := none

namespace Governor

variable (g : Governor)

/-- A peer that is taken down is left alone for a while. -/
def recordDemote (a : SocketAddr) (now : Nat) : Governor :=
  { g with recentlyDemoted := g.recentlyDemoted.insert a (now + g.config.demoteCooldown) }

def inCooldown (now : Nat) (a : SocketAddr) : Bool := (g.recentlyDemoted.lookup a).any (now < ·)

def effectiveHotChurnInterval : Nat :=
  if g.bulkSyncMode then g.config.bulkSyncChurnInterval else g.config.hotChurnInterval

/-- Whether the restriction to trusted peers lets a peer pass. -/
def trusts (a : SocketAddr) : Bool := g.syncTrustedOnly.all (a ∈ ·)

end Governor

/-- What a tick is given. -/
structure Inputs where
  peers : PeerManager := {}
  localRootGroups : List LocalRootGroupTarget := []
  bigLedgerPeers : Finset SocketAddr := ∅
  freshInbound : Finset SocketAddr := ∅
  activeFetchPeer : Option SocketAddr := none
  untrustedEstablished : Finset SocketAddr := ∅

/-- The readings of the clock during a tick: at its start, when the eligible peers are listed for
the local roots, the big ledger peers, the aggregate target and warm churn, when a peer is ranked by
what was fetched from it, and at the three timers. -/
structure Clock where
  (now localRoots bigLedger aggregate churnEligible ranking hotChurn coldChurn warmChurn : Nat)

/-- The orders in which the peer table, the member set of each local root group and the set of
established untrusted peers are listed, and the random draw. -/
structure Choices where
  peers : Listing.Enumeration SocketAddr
  members : Nat → Listing.Enumeration SocketAddr
  untrusted : Listing.Enumeration SocketAddr
  draw : Nat

/-- The state of a tick in progress. -/
structure Tick where
  governor : Governor
  actions : List GovernorAction := []
  alreadyPromoted : Finset SocketAddr := ∅

/-- The two promotions. -/
inductive Promotion where
  | toWarm
  | toHot
  deriving DecidableEq

def Promotion.action : Promotion → SocketAddr → GovernorAction
  | .toWarm => .promoteToWarm
  | .toHot => .promoteToHot

/-- The peers whose promotion has been asked for. -/
def Governor.inProgress (g : Governor) : Promotion → Finset SocketAddr
  | .toWarm => g.inProgressPromoteCold
  | .toHot => g.inProgressPromoteWarm

def Governor.start (g : Governor) (a : SocketAddr) : Promotion → Governor
  | .toWarm => { g with inProgressPromoteCold := insert a g.inProgressPromoteCold }
  | .toHot => { g with inProgressPromoteWarm := insert a g.inProgressPromoteWarm }

namespace Tick

variable (t : Tick)

def push (action : GovernorAction) : Tick := { t with actions := t.actions ++ [action] }

/-- Ask for a promotion. -/
def promote (p : Promotion) (a : SocketAddr) : Tick where
  governor := t.governor.start a p
  actions := t.actions ++ [p.action a]
  alreadyPromoted := insert a t.alreadyPromoted

/-- Promote the peers of a list that are neither promoted nor in progress and pass the guards, as
long as some are needed. -/
def promoteFrom (p : Promotion) (guards : SocketAddr → Bool) (needed : Nat) :
    List SocketAddr → Tick → Tick
  | [], t => t
  | a :: as, t =>
    match needed with
    | 0 => t
    | n + 1 =>
      if a ∈ t.alreadyPromoted ∨ a ∈ t.governor.inProgress p ∨ guards a = false then
        promoteFrom p guards (n + 1) as t
      else promoteFrom p guards n as (t.promote p a)

end Tick

variable (i : Inputs) (clock : Clock) (choices : Choices)

def Inputs.localRootMembers : Finset SocketAddr :=
  i.localRootGroups.foldr (fun group s => group.members ∪ s) ∅

/-- The members of a set with a property. -/
def Inputs.countIn (s : Finset SocketAddr) (p : PeerInfo → Bool) : Nat :=
  (s.filter fun a => i.peers.has p a).card

/-- The pass of one local root group. -/
def localRootGroup (order : Listing.Enumeration SocketAddr) (group : LocalRootGroupTarget)
    (t : Tick) : Tick :=
  let members := order.list group.members
  let needWarm := group.warmValency - i.countIn group.members PeerInfo.established
  let needHot := group.hotValency - i.countIn group.members (·.state = .hot)
  let canConnect := i.peers.has (PeerManager.eligible clock.localRoots)
  let t := t.promoteFrom .toWarm canConnect needWarm members
  t.promoteFrom .toHot (i.peers.has (·.state = .warm)) needHot members

section
variable (t : Tick)

/-- The passes of all local root groups. -/
def localRoots : Tick :=
  i.localRootGroups.zipIdx.foldl (fun t (group, n) =>
    localRootGroup i clock (choices.members n) group t) t

/-- Connect big ledger peers up to their own target; trust is not asked for. -/
def bigLedgerWarm : Tick :=
  t.promoteFrom .toWarm (fun a => !t.governor.inCooldown clock.now a)
    (t.governor.config.targets.targetWarmBigLedger -
      i.countIn i.bigLedgerPeers PeerInfo.established)
    ((i.peers.peersEligibleToConnect choices.peers clock.bigLedger).filter (· ∈ i.bigLedgerPeers))

/-- Activate big ledger peers up to their own target; trust is not asked for. -/
def bigLedgerHot : Tick :=
  t.promoteFrom .toHot
    (fun a => !t.governor.inCooldown clock.now a && decide (a ∉ i.freshInbound))
    (t.governor.config.targets.targetHotBigLedger - i.countIn i.bigLedgerPeers (·.state = .hot))
    ((i.peers.peersInState choices.peers .warm).filter (· ∈ i.bigLedgerPeers))

def bigLedger : Tick :=
  if i.bigLedgerPeers = ∅ then t
  else bigLedgerHot i clock choices (bigLedgerWarm i clock choices t)

/-- Connect peers up to the target, trusted ones only under the restriction. -/
def aggregateWarm : Tick :=
  t.promoteFrom .toWarm
    (fun a => decide (a ∉ i.localRootMembers) && !t.governor.inCooldown clock.now a &&
      t.governor.trusts a)
    (t.governor.config.targets.targetWarm -
      (i.peers.countByState .warm + i.peers.countByState .hot))
    (i.peers.peersEligibleToConnect choices.peers clock.aggregate)

/-- Activate peers up to the target, trusted ones only under the restriction. -/
def aggregateHot : Tick :=
  t.promoteFrom .toHot
    (fun a => decide (a ∉ i.localRootMembers) && !t.governor.inCooldown clock.now a &&
      decide (a ∉ i.freshInbound) && t.governor.trusts a)
    (t.governor.config.targets.targetHot - i.peers.countByState .hot)
    (i.peers.peersInState choices.peers .warm)

end

/-- The peers that the restriction takes down in this tick. -/
def clampDemoted (g : Governor) : Finset SocketAddr :=
  if g.syncTrustedOnly.isSome then i.untrustedEstablished else ∅

variable (t : Tick)

/-- Under the restriction the established peers that are not trusted go. -/
def demoteUntrusted : Tick :=
  { t with actions := t.actions ++
      (choices.untrusted.list (clampDemoted i t.governor)).map GovernorAction.demoteToCold }

/-- Take hot peers down, each with a cooldown. -/
def demoteAll (now : Nat) (as : List SocketAddr) (t : Tick) : Tick :=
  as.foldl (fun t a => { t.push (.demoteToWarm a) with
    governor := t.governor.recordDemote a now }) t

/-- Take the worst hot peers down until the target is met. -/
def aboveTargetOther : Tick :=
  let demoted := clampDemoted i t.governor
  let hotCount := i.peers.countByState .hot
  let effective := hotCount + t.governor.inProgressPromoteWarm.card -
    i.countIn demoted (·.state = .hot)
  let candidates := i.peers.scored (fun a p =>
    if a ∈ i.localRootMembers then none
    else if a ∈ i.bigLedgerPeers then none
    else if i.activeFetchPeer = some a then none
    else if a ∈ demoted then none
    else some (hotDemotionRank p t.governor.bulkSyncMode clock.ranking))
    (i.peers.peersInState choices.peers .hot)
  -- nothing is taken when the count is within the target
  demoteAll clock.now (((sortBy compareScores candidates).take
    (effective - t.governor.config.targets.targetHot)).map (·.1)) t

/-- The pass that takes local roots down; no cooldown is recorded. -/
def aboveTargetLocal : Tick :=
  i.localRootGroups.zipIdx.foldl (fun t (group, n) =>
    let hot := i.peers.scored (fun _ p => if p.state = .hot then some (peerScore p) else none)
      ((choices.members n).list group.members)
    ((sortBy compareScores hot).take (hot.length - group.hotValency)).foldl
      (fun t a => t.push (.demoteToWarm a.1)) t) t

/-- Churn takes the worst hot peer down. -/
def rotateHotOut : Tick :=
  let exclude := fun a => i.activeFetchPeer = some a ∨ a ∈ clampDemoted i t.governor
  match i.peers.selectWorstHot choices.peers t.governor.bulkSyncMode exclude clock.ranking with
  | some a => demoteAll clock.now [a] t
  | none => t

/-- Churn activates the best warm peer; trust is not asked for. -/
def rotateHotIn : Tick :=
  match i.peers.selectBestWarm choices.peers with
  | some a =>
    if t.governor.inCooldown clock.now a = false ∧ a ∉ i.freshInbound then t.push (.promoteToHot a)
    else t
  | none => t

/-- When the timer is due, one hot peer is exchanged. -/
def hotChurn (t : Tick) : Tick :=
  if clock.hotChurn - t.governor.lastHotChurn ≥ t.governor.effectiveHotChurnInterval ∧
      i.peers.countByState .hot > 1 then
    let t := rotateHotIn i clock choices (rotateHotOut i clock choices t)
    { t with governor := { t.governor with lastHotChurn := clock.hotChurn } }
  else t

/-- When the timer is due, the surplus of cold peers is forgotten. -/
def coldChurn (t : Tick) : Tick :=
  if clock.coldChurn - t.governor.lastColdChurn ≥ t.governor.config.coldChurnInterval then
    let maxCold := t.governor.config.targets.maxCold
    let coldCount := i.peers.countByState .cold
    let t := if coldCount > maxCold * 3 / 2 then
      { t with actions := t.actions ++ (i.peers.selectLowestReputationCold choices.peers
          (coldCount - maxCold) i.bigLedgerPeers).map GovernorAction.forgetPeer }
      else t
    { t with governor := { t.governor with lastColdChurn := clock.coldChurn } }
  else t

/-- Churn disconnects the worst warm peer above the target. -/
def rotateWarmOut : Tick :=
  if i.peers.countByState .warm > t.governor.config.targets.targetWarm then
    match i.peers.selectWorstWarm choices.peers with
    | some a => t.push (.demoteToCold a)
    | none => t
  else t

/-- Churn connects the best cold peer below the target; trust is not asked for. -/
def rotateWarmIn : Tick :=
  if i.peers.countByState .warm < t.governor.config.targets.targetWarm then
    match i.peers.selectBestColdEligible choices.peers clock.churnEligible with
    | some a => if t.governor.inCooldown clock.now a = false then t.push (.promoteToWarm a) else t
    | none => t
  else t

/-- When the timer is due, one warm peer is exchanged. -/
def warmChurn (t : Tick) : Tick :=
  if clock.warmChurn - t.governor.lastWarmChurn ≥ t.governor.config.warmChurnInterval then
    let t := rotateWarmIn i clock choices (rotateWarmOut i choices t)
    { t with governor := { t.governor with lastWarmChurn := clock.warmChurn } }
  else t

/-- Too few cold peers: look for more, and ask one warm peer for its own. -/
def discover : Tick :=
  if i.peers.countByState .cold < t.governor.config.targets.maxCold / 2 then
    let t := t.push .discoverMore
    let sharing := i.peers.peersWithPeerSharing choices.peers .warm
    match sharing[choices.draw % sharing.length]? with
    | some a => t.push (.peerShareRequest a)
    | none => t
  else t

section
variable (g : Governor)

/-- Cooldowns that are over are dropped, and those of local roots. -/
def Governor.dropCooldowns (now : Nat) (keep : Finset SocketAddr) : Governor :=
  { g with recentlyDemoted :=
      g.recentlyDemoted.retain fun a expiry => decide (now < expiry) && decide (a ∉ keep) }

def Governor.begin : Tick where
  governor := g.dropCooldowns clock.now i.localRootMembers

/-- The passes for the local roots and the big ledger peers. -/
def Governor.firstPasses : Tick :=
  bigLedger i clock choices (localRoots i clock choices (g.begin i clock))

/-- The passes up to the churn timers. -/
def Governor.targetPasses : Tick :=
  aboveTargetLocal i choices (aboveTargetOther i clock choices (demoteUntrusted i choices
    (aggregateHot i clock choices (aggregateWarm i clock choices (g.firstPasses i clock choices)))))

/-- The passes up to the timer of warm churn. -/
def Governor.churned : Tick :=
  coldChurn i clock choices (hotChurn i clock choices (g.targetPasses i clock choices))

/-- One tick: the actions in their order, and the governor after it. -/
def Governor.computeActionsWithBlp : List GovernorAction × Governor :=
  let t := discover i choices (warmChurn i clock choices (g.churned i clock choices))
  (t.actions, t.governor)

end

end Dugite.Peers
