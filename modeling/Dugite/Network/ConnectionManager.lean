import Dugite.Lib.Listing
import Dugite.Lib.Runs

/-!
# The connection manager

`ConnectionManager` keeps the state of every connection and, beside it, how many inbound
connections each address has. The states decide what counts as inbound or outbound, and several
operations overwrite a state without looking at the one that was there. So the accounts are compared
with what really happened: a `History` also remembers which tracked connections were accepted and
which were reserved. `exact_iff_safeRun` says for which sequences of operations the accounts are
exact throughout.

Every method takes the lock on the connections for its whole body (and the counts only inside it),
so an operation is atomic. The protocol handler of an entry and the settings that only the handshake
reads are left out. Times are seconds.
-/

namespace Dugite.Connections

open FinMap Finset Option Nat

/-- The address without the port, by which the rate is limited. -/
inductive IpAddr where
  | v4 (octets : BitVec 32)
  | v6 (octets : BitVec 128)
  deriving DecidableEq

/-- The key of a connection. -/
inductive SocketAddr where
  | v4 (ip : BitVec 32) (port : UInt16)
  | v6 (ip : BitVec 128) (port : UInt16) (flowinfo scopeId : UInt32)
  deriving DecidableEq

def SocketAddr.ip : SocketAddr → IpAddr
  | .v4 ip _ => .v4 ip
  | .v6 ip _ _ _ => .v6 ip

/-- Who opened a connection. -/
inductive Provenance where
  | outbound
  | inbound
  deriving DecidableEq

/-- Whether a connection carries protocols in both directions. -/
inductive DataFlow where
  | unidirectional
  | duplex
  deriving DecidableEq

/-- The life of a connection, from its reservation to its end. -/
inductive ConnectionState where
  | reservedOutbound
  | unnegotiatedConn (p : Provenance)
  | outboundUni
  | outboundDup
  | outboundIdle (flow : DataFlow)
  | inboundIdle (flow : DataFlow)
  | inboundState (flow : DataFlow)
  | duplexConn
  | terminatingConn
  | closed
  deriving DecidableEq

/-- The states that `reserve_outbound` counts. -/
def ConnectionState.isOutbound : ConnectionState → Bool
  | .reservedOutbound | .outboundIdle _ | .outboundUni | .outboundDup
  | .unnegotiatedConn .outbound | .duplexConn => true
  | _ => false

/-- The states that `accept_inbound` counts, and that make `remove_connection` give a slot back. -/
def ConnectionState.isInbound : ConnectionState → Bool
  | .inboundIdle _ | .inboundState _ | .unnegotiatedConn .inbound | .duplexConn => true
  | _ => false

/-- A tracked connection; only inbound idle ones have a time. -/
structure ConnectionEntry where
  state : ConnectionState
  idleSince : Option Nat := none
  deriving DecidableEq

/-- The limits, with their defaults. -/
structure ConnectionManagerConfig where
  maxInbound : Nat := 100
  maxOutbound : Nat := 20
  perIpRateLimit : Nat := 5

/-- Why a connection is refused. -/
inductive ConnectionError where
  | maxConnectionsReached
  | rateLimited (addr : SocketAddr)
  | simultaneousOpenConflict
  | forbiddenConnection
  deriving DecidableEq

/-- The table of the connections, and the accounts for each address. -/
structure ConnectionManager where
  config : ConnectionManagerConfig
  connections : FinMap SocketAddr ConnectionEntry := ∅
  ipWindow : FinMap IpAddr (List Nat) := ∅
  perIpCount : FinMap IpAddr Nat := ∅

/-- `PER_IP_WINDOW`, in seconds. -/
def perIpWindow : Nat := 60

/-- `INBOUND_IDLE_TIMEOUT`, in seconds. -/
def inboundIdleTimeout : Nat := 300

namespace ConnectionManager

/-- The connections in a state that counts. -/
def counted (counts : ConnectionState → Bool) (conns : FinMap SocketAddr ConnectionEntry) :
    Finset SocketAddr :=
  conns.keys.filter fun a => (conns.lookup a).any (counts ·.state) = true

variable (m : ConnectionManager)

def inbound : Finset SocketAddr := counted ConnectionState.isInbound m.connections

def outbound : Finset SocketAddr := counted ConnectionState.isOutbound m.connections

/-- The number of inbound connections on record for an address. -/
def ipCount (ip : IpAddr) : Nat := (m.perIpCount.lookup ip).getD 0

/-- Write the entry of an address. -/
def put (addr : SocketAddr) (entry : ConnectionEntry) : ConnectionManager :=
  { m with connections := m.connections.insert addr entry }

/-- Whether an address may connect again within the window; if so, this attempt counts. -/
def checkAndRecordInboundIp (ip : IpAddr) (now : Nat) : Bool × ConnectionManager :=
  if m.config.perIpRateLimit = 0 then (true, m)
  else
    let timestamps := ((m.ipWindow.lookup ip).getD []).filter fun t => now - t < perIpWindow
    if timestamps.length ≥ m.config.perIpRateLimit then
      (false, { m with ipWindow := m.ipWindow.insert ip timestamps })
    else (true, { m with ipWindow := m.ipWindow.insert ip (timestamps ++ [now]) })

/-- Take an outbound slot before dialling. -/
def reserveOutbound (addr : SocketAddr) : Except ConnectionError Unit × ConnectionManager :=
  if (m.connections.lookup addr).isSome then (.error .simultaneousOpenConflict, m)
  else if m.outbound.card ≥ m.config.maxOutbound then (.error .maxConnectionsReached, m)
  else (.ok (), m.put addr { state := .reservedOutbound })

def dataFlow (duplex : Bool) : DataFlow := if duplex then .duplex else .unidirectional

section
variable (addr : SocketAddr)

/-- The handshake of a dialled connection is over. -/
def outboundConnected (duplex : Bool) : ConnectionManager :=
  match m.connections.lookup addr with
  | some entry => m.put addr { entry with state := .outboundIdle (dataFlow duplex) }
  | none => m

/-- Take an inbound slot; the limit for each address counts live connections. -/
def acceptInbound : Except ConnectionError Unit × ConnectionManager :=
  match m.connections.lookup addr with
  | some existing =>
    if existing.state = .reservedOutbound then (.error .simultaneousOpenConflict, m)
    else (.error .forbiddenConnection, m)
  | none =>
    if m.inbound.card ≥ m.config.maxInbound then (.error .maxConnectionsReached, m)
    else if m.ipCount addr.ip ≥ m.config.perIpRateLimit then (.error (.rateLimited addr), m)
    else
      let counts := m.perIpCount.insert addr.ip (m.ipCount addr.ip + 1)
      (.ok (), { m with perIpCount := counts }.put addr { state := .unnegotiatedConn .inbound })

/-- The handshake of an inbound connection is over; the entry is replaced whatever it was. -/
def inboundNegotiated (duplex : Bool) (now : Nat) : ConnectionManager :=
  match m.connections.lookup addr with
  | some _ => m.put addr { state := .inboundIdle (dataFlow duplex), idleSince := some now }
  | none => m

/-- An idle inbound connection is in use. -/
def inboundActivity : ConnectionManager :=
  match m.connections.lookup addr with
  | some { state := .inboundIdle flow, .. } =>
    m.put addr { state := .inboundState flow }
  | _ => m

end

/-- Idle for five minutes. -/
def expired (now : Nat) : ConnectionEntry → Bool
  | { state := .inboundIdle _, idleSince := some since } => now - since ≥ inboundIdleTimeout
  | _ => false

/-- End what has been idle for too long, and list it. -/
def checkInboundIdleTimeouts (table : Listing.Enumeration SocketAddr) (now : Nat) :
    List SocketAddr × ConnectionManager :=
  ((table.list m.connections.keys).filter fun a => (m.connections.lookup a).any (expired now),
    { m with connections := m.connections.mapValues fun entry =>
        if expired now entry then { state := .terminatingConn } else entry })

/-- Forget a connection; an inbound state gives the slot of its address back. -/
def removeConnection (addr : SocketAddr) : ConnectionManager :=
  match m.connections.lookup addr with
  | none => m
  | some entry =>
    { m with
      connections := m.connections.erase addr
      perIpCount :=
        if entry.state.isInbound then
          if m.ipCount addr.ip - 1 = 0 then m.perIpCount.erase addr.ip
          else m.perIpCount.insert addr.ip (m.ipCount addr.ip - 1)
        else m.perIpCount }

end ConnectionManager

/-- The operations, with the time and the listing order of the hash table where they matter. -/
inductive Op where
  | checkAndRecordInboundIp (ip : IpAddr) (now : Nat)
  | reserveOutbound (addr : SocketAddr)
  | outboundConnected (addr : SocketAddr) (duplex : Bool)
  | acceptInbound (addr : SocketAddr)
  | inboundNegotiated (addr : SocketAddr) (duplex : Bool) (now : Nat)
  | inboundActivity (addr : SocketAddr)
  | checkInboundIdleTimeouts (table : Listing.Enumeration SocketAddr) (now : Nat)
  | removeConnection (addr : SocketAddr)

/-! ## What happened -/

/-- The manager, with the tracked connections by how they came about. -/
structure History where
  manager : ConnectionManager
  accepted : Finset SocketAddr := ∅
  reserved : Finset SocketAddr := ∅

namespace History

def new (config : ConnectionManagerConfig) : History := { manager := { config } }

/-- One operation; a connection is accepted or reserved until it is removed. -/
def step (w : History) : Op → History
  | .checkAndRecordInboundIp ip now =>
    { w with manager := (w.manager.checkAndRecordInboundIp ip now).2 }
  | .reserveOutbound addr =>
    match w.manager.reserveOutbound addr with
    | (.ok (), m) => { w with manager := m, reserved := insert addr w.reserved }
    | (.error _, m) => { w with manager := m }
  | .outboundConnected addr duplex => { w with manager := w.manager.outboundConnected addr duplex }
  | .acceptInbound addr =>
    match w.manager.acceptInbound addr with
    | (.ok (), m) => { w with manager := m, accepted := insert addr w.accepted }
    | (.error _, m) => { w with manager := m }
  | .inboundNegotiated addr duplex now =>
    { w with manager := w.manager.inboundNegotiated addr duplex now }
  | .inboundActivity addr => { w with manager := w.manager.inboundActivity addr }
  | .checkInboundIdleTimeouts table now =>
    { w with manager := (w.manager.checkInboundIdleTimeouts table now).2 }
  | .removeConnection addr => {
      manager := w.manager.removeConnection addr
      accepted := w.accepted.erase addr
      reserved := w.reserved.erase addr }

def run (w : History) (ops : List Op) : History := ops.foldl step w

end History

/-- The connections from one address. -/
def fromIp (ip : IpAddr) (s : Finset SocketAddr) : Finset SocketAddr := s.filter (·.ip = ip)

/-- The accounts are exact and the limits are kept, both for the connections that were accepted or
reserved and for those that are inbound or outbound by their state. -/
structure Exact (w : History) : Prop where
  perIp : ∀ ip, w.manager.ipCount ip = (fromIp ip w.accepted).card
  accepted : w.accepted.card ≤ w.manager.config.maxInbound
  inbound : w.manager.inbound.card ≤ w.manager.config.maxInbound
  reserved : w.reserved.card ≤ w.manager.config.maxOutbound
  outbound : w.manager.outbound.card ≤ w.manager.config.maxOutbound
  acceptedFrom : ∀ ip, (fromIp ip w.accepted).card ≤ w.manager.config.perIpRateLimit
  inboundFrom : ∀ ip, (fromIp ip w.manager.inbound).card ≤ w.manager.config.perIpRateLimit

/-- The operations after which the accounts are still exact. -/
def Safe (w : History) : Op → Prop
  | .reserveOutbound addr =>
    w.manager.connections.lookup addr = none →
    w.manager.outbound.card < w.manager.config.maxOutbound →
      -- no reserved connection is counted elsewhere
      w.reserved.card < w.manager.config.maxOutbound
  | .outboundConnected addr _ =>
    (w.manager.connections.lookup addr).isSome → addr ∈ w.manager.outbound ∨
      w.manager.outbound.card < w.manager.config.maxOutbound
  | .acceptInbound addr =>
    w.manager.connections.lookup addr = none →
    w.manager.inbound.card < w.manager.config.maxInbound →
    w.manager.ipCount addr.ip < w.manager.config.perIpRateLimit →
      w.accepted.card < w.manager.config.maxInbound ∧
        (fromIp addr.ip w.manager.inbound).card < w.manager.config.perIpRateLimit
  | .inboundNegotiated addr _ _ =>
    (w.manager.connections.lookup addr).isSome → addr ∈ w.manager.inbound ∨
      w.manager.inbound.card < w.manager.config.maxInbound ∧
        (fromIp addr.ip w.manager.inbound).card < w.manager.config.perIpRateLimit
  | .removeConnection addr =>
    (addr ∈ w.accepted → addr ∈ w.manager.inbound) ∧
      (addr ∈ w.manager.inbound → addr ∈ w.accepted ∨ fromIp addr.ip w.accepted = ∅)
  | _ => True

/-- Every operation of a run is safe where it comes. -/
def SafeRun (w : History) : List Op → Prop
  | [] => True
  | op :: ops => Safe w op ∧ SafeRun (w.step op) ops

/-! ## Sets under a limit -/

section
variable {s : Finset SocketAddr} {a : SocketAddr} {n : Nat}

theorem card_insert_le_iff (h : s.card ≤ n) : (insert a s).card ≤ n ↔ a ∈ s ∨ s.card < n := by
  by_cases ha : a ∈ s
  · rw [insert_eq_of_mem ha]
    exact ⟨fun _ => .inl ha, fun _ => h⟩
  · rw [card_insert_of_notMem ha, or_iff_right ha]
    exact succ_le_iff

variable (ip : IpAddr)

theorem fromIp_insert :
    fromIp ip (insert a s) = if a.ip = ip then insert a (fromIp ip s) else fromIp ip s :=
  filter_insert _ _ _

theorem fromIp_erase : fromIp ip (s.erase a) = (fromIp ip s).erase a := filter_erase _ _ _

theorem mem_fromIp {ip : IpAddr} : a ∈ fromIp ip s ↔ a ∈ s ∧ a.ip = ip := mem_filter

theorem fromIp_mono {t : Finset SocketAddr} (h : s ⊆ t) : fromIp ip s ⊆ fromIp ip t :=
  filter_subset_filter _ h

theorem card_fromIp_insert_le_iff (h : ∀ ip, (fromIp ip s).card ≤ n) :
    (∀ ip, (fromIp ip (insert a s)).card ≤ n) ↔ a ∈ s ∨ (fromIp a.ip s).card < n := by
  constructor
  · intro hall
    have ha := hall a.ip
    rw [fromIp_insert, if_pos rfl, card_insert_le_iff (h a.ip), mem_fromIp] at ha
    exact ha.imp_left And.left
  · intro ha ip
    rw [fromIp_insert]
    split
    · next heq =>
      subst heq
      exact (card_insert_le_iff (h _)).2 (ha.imp_left fun ha => mem_fromIp.2 ⟨ha, rfl⟩)
    · exact h ip

/-- Taking one element out, seen at one address. -/
theorem card_fromIp_erase : (fromIp ip (s.erase a)).card =
      if a ∈ s ∧ a.ip = ip then (fromIp ip s).card - 1 else (fromIp ip s).card := by
  rw [fromIp_erase]
  split
  · next h => exact card_erase_of_mem (mem_fromIp.2 h)
  · next h => rw [erase_eq_of_notMem fun hmem => h (mem_fromIp.1 hmem)]

end

/-! ## What is counted after an operation -/

variable {b : SocketAddr} {now : Nat}

section

open ConnectionManager

variable {counts : ConnectionState → Bool} {conns : FinMap SocketAddr ConnectionEntry}
  {a : SocketAddr} {e : ConnectionEntry}

theorem mem_counted :
    b ∈ counted counts conns ↔ ∃ e, conns.lookup b = some e ∧ counts e.state = true := by
  rw [counted, mem_filter, mem_keys]
  cases conns.lookup b with
  | none | some e => simp

theorem notMem_counted (h : conns.lookup a = none) : a ∉ counted counts conns := by
  rw [mem_counted, h]
  rintro ⟨e, he, -⟩
  cases he

theorem counted_insert : counted counts (conns.insert a e) =
    if counts e.state then insert a (counted counts conns) else (counted counts conns).erase a := by
  ext b
  rw [mem_counted, lookup_insert_ite]
  by_cases hb : b = a
  · cases hcounts : counts e.state <;> simp [hb, hcounts]
  · cases counts e.state <;> simp [hb, mem_counted]

theorem counted_erase : counted counts (conns.erase a) = (counted counts conns).erase a := by
  ext b
  rw [mem_counted, lookup_erase_ite, mem_erase, mem_counted]
  by_cases hb : b = a
  · simp [hb]
  · simp [hb]

variable {m : ConnectionManager}

@[simp] theorem put_ipCount : (m.put a e).ipCount = m.ipCount := rfl

theorem put_inbound_of_true (h : e.state.isInbound = true) :
    (m.put a e).inbound = insert a m.inbound := by
  rw [inbound, put, counted_insert, if_pos h, inbound]

theorem put_inbound_of_false (h : e.state.isInbound = false) :
    (m.put a e).inbound = m.inbound.erase a := by
  rw [inbound, put, counted_insert, h, if_neg Bool.false_ne_true, inbound]

theorem put_outbound_of_true (h : e.state.isOutbound = true) :
    (m.put a e).outbound = insert a m.outbound := by
  rw [outbound, put, counted_insert, if_pos h, outbound]

theorem put_outbound_of_false (h : e.state.isOutbound = false) :
    (m.put a e).outbound = m.outbound.erase a := by
  rw [outbound, put, counted_insert, h, if_neg Bool.false_ne_true, outbound]

/-- The sweep only ends connections. -/
theorem counted_sweep_subset (hend : counts .terminatingConn = false) :
    counted counts (conns.mapValues fun e =>
      if expired now e then { state := .terminatingConn } else e) ⊆ counted counts conns := by
  intro b hb
  rw [mem_counted] at hb
  obtain ⟨e', he', hin⟩ := hb
  rw [lookup_mapValues, map_eq_some_iff] at he'
  obtain ⟨e, he, rfl⟩ := he'
  refine mem_counted.2 ⟨e, he, ?_⟩
  split at hin
  · rw [hend] at hin
    cases hin
  · exact hin

end

/-! ## One operation -/

/-- Only tracked connections are remembered. -/
structure Grounded (w : History) : Prop where
  accepted : ∀ a ∈ w.accepted, (w.manager.connections.lookup a).isSome = true
  reserved : ∀ a ∈ w.reserved, (w.manager.connections.lookup a).isSome = true

variable (config : ConnectionManagerConfig)

theorem grounded_new : Grounded (History.new config) :=
  ⟨fun _ h => (nomatch h), fun _ h => (nomatch h)⟩

section

open ConnectionManager

variable {w : History} {a : SocketAddr} {m : ConnectionManager} {duplex : Bool}

theorem isSome_put {e : ConnectionEntry} (h : b = a ∨ (m.connections.lookup b).isSome = true) :
    ((m.put a e).connections.lookup b).isSome = true := by
  rw [put, lookup_insert_ite]
  split
  · rfl
  · next hne => exact h.resolve_left hne

theorem Grounded.put (h : Grounded w) (e : ConnectionEntry) :
    Grounded { w with manager := w.manager.put a e } :=
  ⟨fun b hb => isSome_put (.inr (h.accepted b hb)), fun b hb => isSome_put (.inr (h.reserved b hb))⟩

theorem Grounded.step (h : Grounded w) (op : Op) : Grounded (w.step op) := by
  cases op with
  | checkAndRecordInboundIp ip now =>
    rw [History.step, checkAndRecordInboundIp]
    split
    · exact h
    · dsimp only
      split <;> exact { h with }
  | reserveOutbound addr =>
    rw [History.step, reserveOutbound]
    split_ifs
    · exact h
    · exact h
    · refine ⟨(h.put _).accepted, fun b hb => isSome_put ?_⟩
      exact (mem_insert.1 hb).imp_right (h.reserved b)
  | outboundConnected addr duplex =>
    rw [History.step, outboundConnected]
    cases w.manager.connections.lookup addr with
    | none => exact h
    | some entry => exact h.put _
  | acceptInbound addr =>
    rw [History.step, acceptInbound]
    cases w.manager.connections.lookup addr with
    | some entry =>
      dsimp only
      split_ifs <;> exact h
    | none =>
      dsimp only
      split_ifs
      · exact h
      · exact h
      · refine ⟨fun b hb => isSome_put ?_, fun b hb => isSome_put (.inr (h.reserved b hb))⟩
        exact (mem_insert.1 hb).imp_right (h.accepted b)
  | inboundNegotiated addr duplex now =>
    rw [History.step, inboundNegotiated]
    cases w.manager.connections.lookup addr with
    | none => exact h
    | some entry => exact h.put _
  | inboundActivity addr =>
    rw [History.step, inboundActivity]
    split
    · exact h.put _
    · exact h
  | checkInboundIdleTimeouts table now =>
    refine ⟨fun b hb => ?_, fun b hb => ?_⟩
    · rw [History.step, checkInboundIdleTimeouts, lookup_mapValues, isSome_map]
      exact h.accepted b hb
    · rw [History.step, checkInboundIdleTimeouts, lookup_mapValues, isSome_map]
      exact h.reserved b hb
  | removeConnection addr =>
    have hremoved : ∀ b, b ≠ addr → (w.manager.removeConnection addr).connections.lookup b =
          w.manager.connections.lookup b := by
      intro b hb
      rw [removeConnection]
      split
      · rfl
      · exact Finmap.lookup_erase_ne hb
    refine ⟨fun b hb => ?_, fun b hb => ?_⟩
    · obtain ⟨hne, hmem⟩ := mem_erase.1 hb
      rw [History.step, hremoved b hne]
      exact h.accepted b hmem
    · obtain ⟨hne, hmem⟩ := mem_erase.1 hb
      rw [History.step, hremoved b hne]
      exact h.reserved b hmem

/-- With fewer connections the limits are kept. -/
theorem Exact.mono {w' : History} (h : Exact w) (hconfig : w'.manager.config = w.manager.config)
    (hperIp : ∀ ip, w'.manager.ipCount ip = (fromIp ip w'.accepted).card)
    (haccepted : w'.accepted ⊆ w.accepted) (hreserved : w'.reserved ⊆ w.reserved)
    (hin : w'.manager.inbound ⊆ w.manager.inbound)
    (hout : w'.manager.outbound ⊆ w.manager.outbound) : Exact w' where
  perIp := hperIp
  accepted := (card_le_card haccepted).trans (hconfig ▸ h.accepted)
  inbound := (card_le_card hin).trans (hconfig ▸ h.inbound)
  reserved := (card_le_card hreserved).trans (hconfig ▸ h.reserved)
  outbound := (card_le_card hout).trans (hconfig ▸ h.outbound)
  acceptedFrom ip := (card_le_card (fromIp_mono ip haccepted)).trans (hconfig ▸ h.acceptedFrom ip)
  inboundFrom ip := (card_le_card (fromIp_mono ip hin)).trans (hconfig ▸ h.inboundFrom ip)

theorem Exact.of_manager (h : Exact w)
    (hconfig : m.config = w.manager.config) (hcount : m.ipCount = w.manager.ipCount)
    (hin : m.inbound ⊆ w.manager.inbound) (hout : m.outbound ⊆ w.manager.outbound) :
    Exact { w with manager := m } :=
  h.mono hconfig (fun ip => (congrFun hcount ip).trans (h.perIp ip)) subset_rfl subset_rfl hin hout

theorem exact_reserveOutbound_iff (hg : Grounded w) (h : Exact w) :
    Exact (w.step (.reserveOutbound a)) ↔ Safe w (.reserveOutbound a) := by
  rw [History.step, reserveOutbound]
  split_ifs with htracked hfull
  · refine ⟨fun _ hnone => ?_, fun _ => h⟩
    rw [hnone] at htracked
    cases htracked
  · exact ⟨fun _ _ hroom => absurd hroom (not_lt.2 hfull), fun _ => h⟩
  have hnone : w.manager.connections.lookup a = none := by simpa using htracked
  have hroom := Nat.lt_of_not_le hfull
  have hnew : a ∉ w.reserved := fun hmem => htracked (hg.reserved a hmem)
  have hin : (w.manager.put a { state := .reservedOutbound }).inbound = w.manager.inbound := by
    rw [put_inbound_of_false rfl]
    exact erase_eq_of_notMem (notMem_counted hnone)
  constructor
  · intro h' _ _
    exact ((card_insert_le_iff h.reserved).1 h'.reserved).resolve_left hnew
  · intro hsafe
    exact { h with
      inbound := by
        rw [hin]
        exact h.inbound
      reserved := (card_insert_le_iff h.reserved).2 (.inr (hsafe hnone hroom))
      outbound := by
        rw [put_outbound_of_true rfl]
        exact (card_insert_le_iff h.outbound).2 (.inr hroom)
      inboundFrom := by
        rw [hin]
        exact h.inboundFrom }

theorem exact_outboundConnected_iff (h : Exact w) :
    Exact (w.step (.outboundConnected a duplex)) ↔ Safe w (.outboundConnected a duplex) := by
  rw [History.step, outboundConnected, Safe]
  cases w.manager.connections.lookup a with
  | none => exact ⟨fun _ hnone => (nomatch hnone), fun _ => h⟩
  | some entry =>
  rw [isSome_some, forall_prop_of_true rfl, ← card_insert_le_iff h.outbound]
  have hin : (w.manager.put a { entry with state := .outboundIdle (dataFlow duplex) }).inbound ⊆
      w.manager.inbound := by
    rw [put_inbound_of_false rfl]
    exact erase_subset _ _
  constructor
  · intro h'
    have hout := h'.outbound
    rwa [put_outbound_of_true rfl] at hout
  · intro hout
    exact { h with
      inbound := (card_le_card hin).trans h.inbound
      outbound := by
        rw [put_outbound_of_true rfl]
        exact hout
      inboundFrom := fun ip =>
        (card_le_card (fromIp_mono ip hin)).trans (h.inboundFrom ip) }

theorem exact_inboundNegotiated_iff (h : Exact w) :
    Exact (w.step (.inboundNegotiated a duplex now)) ↔
      Safe w (.inboundNegotiated a duplex now) := by
  rw [History.step, inboundNegotiated, Safe]
  cases w.manager.connections.lookup a with
  | none => exact ⟨fun _ hnone => (nomatch hnone), fun _ => h⟩
  | some entry =>
  rw [isSome_some, forall_prop_of_true rfl, or_and_left, ← card_insert_le_iff h.inbound,
    ← card_fromIp_insert_le_iff h.inboundFrom]
  constructor
  · intro h'
    have hin := h'.inbound
    have hfrom := h'.inboundFrom
    rw [put_inbound_of_true rfl] at hin hfrom
    exact ⟨hin, hfrom⟩
  · rintro ⟨hin, hfrom⟩
    exact { h with
      inbound := by
        rw [put_inbound_of_true rfl]
        exact hin
      outbound := by
        rw [put_outbound_of_false rfl]
        exact (card_le_card (erase_subset _ _)).trans h.outbound
      inboundFrom := by
        rw [put_inbound_of_true rfl]
        exact hfrom }

theorem exact_acceptInbound_iff (hg : Grounded w) (h : Exact w) :
    Exact (w.step (.acceptInbound a)) ↔ Safe w (.acceptInbound a) := by
  rw [History.step, acceptInbound, Safe]
  cases hlookup : w.manager.connections.lookup a with
  | some entry =>
    dsimp only
    split_ifs <;> exact ⟨fun _ hnone => (nomatch hnone), fun _ => h⟩
  | none =>
    rw [forall_prop_of_true rfl]
    dsimp only
    split_ifs with hfull hlimit
    · exact ⟨fun _ hroom => absurd hroom (not_lt.2 hfull), fun _ => h⟩
    · exact ⟨fun _ _ hroom => absurd hroom (not_lt.2 hlimit), fun _ => h⟩
    rw [forall_prop_of_true (Nat.lt_of_not_le hfull), forall_prop_of_true (Nat.lt_of_not_le hlimit)]
    have hnew : a ∉ w.accepted := by
      intro hmem
      have := hg.accepted a hmem
      rw [hlookup] at this
      cases this
    have hout : a ∉ w.manager.inbound := notMem_counted hlookup
    constructor
    · intro h'
      have hfrom := h'.inboundFrom
      rw [put_inbound_of_true rfl] at hfrom
      exact ⟨((card_insert_le_iff h.accepted).1 h'.accepted).resolve_left hnew,
        ((card_fromIp_insert_le_iff h.inboundFrom).1 hfrom).resolve_left hout⟩
    · rintro ⟨haccepted, hfrom⟩
      exact { h with
        perIp := by
          intro ip
          rw [put_ipCount, ipCount, lookup_insert_ite, fromIp_insert]
          by_cases hip : ip = a.ip
          · rw [if_pos hip, if_pos hip.symm, getD_some, hip,
              card_insert_of_notMem fun hmem => hnew (mem_fromIp.1 hmem).1, h.perIp]
          · rw [if_neg hip, if_neg (Ne.symm hip)]
            exact h.perIp ip
        accepted := (card_insert_le_iff h.accepted).2 (.inr haccepted)
        inbound := by
          rw [put_inbound_of_true rfl]
          exact (card_insert_le_iff h.inbound).2 (.inr (Nat.lt_of_not_le hfull))
        outbound := by
          rw [put_outbound_of_false rfl]
          exact (card_le_card (erase_subset _ _)).trans h.outbound
        acceptedFrom := by
          refine (card_fromIp_insert_le_iff h.acceptedFrom).2 (.inr ?_)
          rw [← h.perIp]
          exact Nat.lt_of_not_le hlimit
        inboundFrom := by
          rw [put_inbound_of_true rfl]
          exact (card_fromIp_insert_le_iff h.inboundFrom).2 (.inr hfrom) }

/-- A count of zero is not kept. -/
theorem getD_lookup_setCount (counts : FinMap IpAddr Nat) (ip ip' : IpAddr) (n : Nat) :
    ((if n = 0 then counts.erase ip else counts.insert ip n).lookup ip').getD 0 =
      if ip' = ip then n else (counts.lookup ip').getD 0 := by
  split
  · next hzero =>
    rw [lookup_erase_ite]
    split
    · exact hzero.symm
    · rfl
  · rw [lookup_insert_ite]
    split <;> rfl

variable (m : ConnectionManager)

theorem ipCount_removeConnection (ip : IpAddr) : (m.removeConnection a).ipCount ip =
      if a ∈ m.inbound ∧ a.ip = ip then m.ipCount ip - 1 else m.ipCount ip := by
  rw [removeConnection]
  cases hlookup : m.connections.lookup a with
  | none =>
    have hout : ¬ (a ∈ m.inbound ∧ a.ip = ip) := fun h => notMem_counted hlookup h.1
    exact (if_neg hout).symm
  | some entry =>
  have hmem : a ∈ m.inbound ↔ entry.state.isInbound = true := by
    rw [inbound, mem_counted, hlookup]
    simp
  change ((if entry.state.isInbound = true then
    if m.ipCount a.ip - 1 = 0 then m.perIpCount.erase a.ip
    else m.perIpCount.insert a.ip (m.ipCount a.ip - 1)
    else m.perIpCount).lookup ip).getD 0 = _
  by_cases hin : entry.state.isInbound = true
  · rw [if_pos hin, getD_lookup_setCount]
    by_cases hip : a.ip = ip
    · rw [if_pos hip.symm, if_pos ⟨hmem.2 hin, hip⟩, hip]
    · rw [← ipCount]
      have hother : ¬ (a ∈ m.inbound ∧ a.ip = ip) := fun h => hip h.2
      rw [if_neg (Ne.symm hip), if_neg hother]
  · have hout : ¬ (a ∈ m.inbound ∧ a.ip = ip) := fun h => hin (hmem.1 h.1)
    rw [if_neg hin, if_neg hout, ipCount]

theorem removeConnection_inbound : (m.removeConnection a).inbound ⊆ m.inbound := by
  rw [removeConnection]
  split
  · exact Finset.Subset.refl _
  · rw [inbound, counted_erase]
    exact erase_subset _ _

theorem removeConnection_outbound : (m.removeConnection a).outbound ⊆ m.outbound := by
  rw [removeConnection]
  split
  · exact Finset.Subset.refl _
  · rw [outbound, counted_erase]
    exact erase_subset _ _

theorem exact_removeConnection_iff (h : Exact w) :
    Exact (w.step (.removeConnection a)) ↔ Safe w (.removeConnection a) := by
  have hcount : (∀ ip, (w.manager.removeConnection a).ipCount ip =
      (fromIp ip (w.accepted.erase a)).card) ↔ Safe w (.removeConnection a) := by
    rw [Safe, ← Finset.card_eq_zero]
    constructor
    · intro hall
      have heq := hall a.ip
      rw [ipCount_removeConnection, card_fromIp_erase, h.perIp] at heq
      constructor
      · intro haccepted
        have hpos := card_pos.2 ⟨a, mem_fromIp.2 ⟨haccepted, rfl⟩⟩
        by_contra hin
        rw [if_neg fun h => hin h.1, if_pos ⟨haccepted, rfl⟩] at heq
        omega
      · intro hin
        by_cases haccepted : a ∈ w.accepted
        · exact .inl haccepted
        · rw [if_pos ⟨hin, rfl⟩, if_neg fun h => haccepted h.1] at heq
          exact .inr (by omega)
    · rintro ⟨hstate, horigin⟩ ip
      rw [ipCount_removeConnection, card_fromIp_erase, h.perIp]
      by_cases hip : a.ip = ip
      · subst hip
        by_cases haccepted : a ∈ w.accepted
        · rw [if_pos ⟨hstate haccepted, rfl⟩, if_pos ⟨haccepted, rfl⟩]
        have hnot : ¬ (a ∈ w.accepted ∧ a.ip = a.ip) := fun h => haccepted h.1
        rw [if_neg hnot]
        split
        · next hin => rw [(horigin hin.1).resolve_left haccepted]
        · rfl
      · rw [if_neg fun h => hip h.2, if_neg fun h => hip h.2]
  rw [← hcount, History.step]
  constructor
  · intro h'
    exact h'.perIp
  · intro hperIp
    exact h.mono (by rw [removeConnection]; split <;> rfl) hperIp (erase_subset _ _)
      (erase_subset _ _) (removeConnection_inbound _) (removeConnection_outbound _)

/-- An operation leaves exact accounts exact if and only if it is safe. -/
theorem exact_step_iff (hg : Grounded w) (h : Exact w) (op : Op) :
    Exact (w.step op) ↔ Safe w op := by
  cases op with
  | checkAndRecordInboundIp ip now =>
    refine iff_of_true ?_ trivial
    rw [History.step, checkAndRecordInboundIp]
    split
    · exact h
    · dsimp only
      split <;> exact h.of_manager rfl rfl subset_rfl subset_rfl
  | reserveOutbound addr => exact exact_reserveOutbound_iff hg h
  | outboundConnected addr duplex => exact exact_outboundConnected_iff h
  | acceptInbound addr => exact exact_acceptInbound_iff hg h
  | inboundNegotiated addr duplex now => exact exact_inboundNegotiated_iff h
  | inboundActivity addr =>
    refine iff_of_true ?_ trivial
    rw [History.step, inboundActivity]
    split
    · next flow idle hlookup =>
      refine h.of_manager rfl rfl ?_ ?_
      · have hmem : addr ∈ w.manager.inbound := mem_counted.2 ⟨_, hlookup, rfl⟩
        rw [put_inbound_of_true rfl, insert_eq_of_mem hmem]
      · rw [put_outbound_of_false rfl]
        exact erase_subset _ _
    · exact h
  | checkInboundIdleTimeouts table now =>
    exact iff_of_true (h.of_manager rfl rfl (counted_sweep_subset rfl)
      (counted_sweep_subset rfl)) trivial
  | removeConnection addr => exact exact_removeConnection_iff h

end

/-! ## Sequences of operations -/

theorem exact_new : Exact (History.new config) :=
  ⟨fun _ => rfl, zero_le _, zero_le _, zero_le _, zero_le _, fun _ => zero_le _, fun _ => zero_le _⟩

theorem exact_run_iff {w : History} (hg : Grounded w) (h : Exact w) (ops : List Op) :
    (∀ k, Exact (w.run (ops.take k))) ↔ SafeRun w ops := by
  have hinv : ∀ w op, Grounded w → Exact w → Grounded (w.step op) := fun _ op hg _ => hg.step op
  have hstep : ∀ w op, Grounded w → Exact w →
      (Exact (w.step op) ↔ Safe w op) := fun _ op hg h => exact_step_iff hg h op
  exact Runs.always_iff (fun _ => trivial) (fun _ _ _ => Iff.rfl) hinv hstep hg h ops

/-- The accounts are exact and the limits kept in every state of a run if and only if every
operation of it is safe. -/
theorem exact_iff_safeRun (config : ConnectionManagerConfig) (ops : List Op) :
    (∀ k, Exact ((History.new config).run (ops.take k))) ↔ SafeRun (History.new config) ops :=
  exact_run_iff (grounded_new config) (exact_new config) ops

def peer (port : UInt16) : SocketAddr := .v4 0x01020304#32 port

noncomputable def someOrder : Listing.Enumeration SocketAddr :=
  ⟨Finset.toList, Finset.mem_toList, Finset.nodup_toList⟩

/-- One inbound connection that goes idle, is swept and then removed. -/
noncomputable def idleLife : List Op :=
  [.acceptInbound (peer 1), .inboundNegotiated (peer 1) true 0,
    .checkInboundIdleTimeouts someOrder 300, .removeConnection (peer 1)]

/-- Nothing is tracked any more, but the address keeps its count and is refused. -/
theorem idle_timeout_leaks :
    ¬ Exact ((History.new { perIpRateLimit := 1 }).run idleLife) ∧
      (((History.new { perIpRateLimit := 1 }).run idleLife).manager.acceptInbound (peer 2)).1 =
        .error (.rateLimited (peer 2)) := by
  constructor
  · intro h
    have hcount : ((History.new { perIpRateLimit := 1 }).run idleLife).manager.ipCount (peer 1).ip =
        1 := by decide +kernel
    have haccepted : ((History.new { perIpRateLimit := 1 }).run idleLife).accepted = ∅ := by
      decide +kernel
    rw [h.perIp, haccepted] at hcount
    cases hcount
  · decide +kernel

end Dugite.Connections
