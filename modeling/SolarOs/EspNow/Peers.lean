import SolarOs.Esp
import SolarOs.Library.Program
import SolarOs.Library.Slots

/-! The peers of ESP-NOW: the table, the driver's peers and the stored ones, and the calls
that change them while the service is running. -/
namespace SolarOs.EspNow.Peers
open Program

def peerMax : Nat := 19

abbrev Mac := Vector UInt8 6

def broadcastMac : Mac := .replicate 6 0xFF

/-- `solar_os_espnow_peer_t` of a slot in use. -/
structure Peer where
  linkId : UInt32
  mac : Mac
  configured : Bool
  rssi : Int
  lastSeenMs : UInt32
  deriving DecidableEq

abbrev Table := Slots peerMax Peer

def linkIdValid (linkId : UInt32) : Bool := linkId ≠ 0 && linkId ≠ 0xFFFFFFFF

def macValid (mac : Mac) : Bool := mac[0] &&& 1 = 0 && mac.any (· ≠ 0)

section
variable (t : Table)

section
variable (linkId : UInt32)

/-- `espnow_peer_index_by_id_locked`. -/
def indexById : Option (Fin peerMax) := t.find fun p => p.linkId = linkId

variable (mac : Mac)

/-- `espnow_peer_index_by_mac_locked`. -/
def indexByMac : Option (Fin peerMax) := t.find fun p => p.mac = mac

def hasMac : Bool := (t.find fun p => p.mac = mac).isSome

def otherByMac : Option (Fin peerMax) :=
  if indexByMac t mac = indexById t linkId then none else indexByMac t mac

/-- The first section of `solar_os_espnow_peer_set`. -/
def setPeer : Table × EspErr :=
  if (otherByMac t linkId mac).any fun i => (t i).any Peer.configured then (t, .invalidState)
  else
    let cleared := (otherByMac t linkId mac).elim t t.clear
    match (indexById t linkId).or cleared.free with
    | some i => (cleared.put i ⟨linkId, mac, true, 0, 0⟩, .ok)
    | none => (cleared, .noMem)

/-- The first section of `solar_os_espnow_peer_remove`. -/
def removePeer : Table × EspErr :=
  match indexById t linkId with
  | some i => (t.clear i, .ok)
  | none => (t, .notFound)

/-- The learned peer that was seen longest ago, the last one of several. -/
def oldestLearned : Option (Fin peerMax) :=
  ((List.finRange peerMax).foldl
    (fun (oldest : UInt32 × Option (Fin peerMax)) i =>
      match t i with
      | some p => if !p.configured ∧ p.lastSeenMs ≤ oldest.1 then (p.lastSeenMs, some i) else oldest
      | none => oldest)
    (0xFFFFFFFF, none)).2

/-- The first section of `solar_os_espnow_peer_learn`. -/
def learnPeer (rssi : Int) (nowMs : UInt32) : Table × EspErr :=
  let byId := indexById t linkId
  let byMac := indexByMac t mac
  if (byId.any fun i => (t i).any fun p => p.mac ≠ mac) ∨
      byMac.any fun i => (t i).any fun p => p.linkId ≠ linkId then (t, .invalidState)
  else
    match (byId.or byMac).or (t.free.or (oldestLearned t)) with
    | some i => (t.put i ⟨linkId, mac, (t i).any Peer.configured, rssi, nowMs⟩, .ok)
    | none => (t, .noMem)

end

abbrev Record := UInt32 × Mac

def configuredRecords : List Record :=
  (List.finRange peerMax).filterMap fun i => ((t i).filter Peer.configured).map fun p => (p.linkId, p.mac)

inductive Change where
  | set (linkId : UInt32) (mac : Mac)
  | remove (linkId : UInt32)
  | learn (linkId : UInt32) (mac : Mac) (rssi : Int) (nowMs : UInt32)
  deriving DecidableEq

def Change.apply : Change → Table × EspErr
  | .set linkId mac => setPeer t linkId mac
  | .remove linkId => removePeer t linkId
  | .learn linkId mac rssi nowMs => learnPeer t linkId mac rssi nowMs

def Change.saves : Change → Bool
  | .set .. => true
  | .remove linkId => (indexById t linkId).any fun i => (t i).any Peer.configured
  | .learn .. => false

end

def Change.learns : Change → Bool
  | .learn .. => true
  | _ => false

/-- What a call keeps of its first section: the table as it was before. -/
structure Snapshot where
  call : Nat
  change : Change
  before : Table
  saves : Bool

structure World where
  table : Table
  driver : Finset Mac
  stored : List Record
  /-- The changes that were made and not undone. -/
  standing : List (Nat × Change)
  /-- How many changes there were. -/
  calls : Nat
  /-- The configured peers that calls of `solar_os_espnow_peer_learn` have taken away. -/
  lost : List Peer
  /-- A driver call has failed while a change was undone. -/
  rollbackFailed : Bool
  deriving DecidableEq

def missing (t t' : Table) : List Peer :=
  ((List.finRange peerMax).filterMap t).filter fun p =>
    p.configured && !(List.finRange peerMax).any fun i => (t' i).any fun q =>
      q.configured && q.linkId = p.linkId && q.mac = p.mac

structure Env where
  error : EspErr

/-- The critical sections, the driver's functions and the store. -/
inductive Op : Type → Type
  | change (c : Change) : Op (Except EspErr Snapshot)
  | peers : Op Table
  | isPeerExist (mac : Mac) : Op Bool
  | addPeer (mac : Mac) : Op EspErr
  | modPeer (mac : Mac) : Op EspErr
  | delPeer (mac : Mac) : Op EspErr
  | configureRate (mac : Mac) : Op EspErr
  | restore (snapshot : Snapshot) : Op Table
  | rolledBack (error : EspErr) : Op Unit
  | readConfigured : Op (List Record)
  | nvsWrite (store : List Record) : Op EspErr

def World.change (w : World) (c : Change) : World × Except EspErr Snapshot :=
  let after := c.apply w.table
  if after.2 = .ok then
    ({ w with
        table := after.1
        standing := w.standing ++ [(w.calls, c)]
        calls := w.calls + 1
        lost := if c.learns then w.lost ++ missing w.table after.1 else w.lost },
      .ok ⟨w.calls, c, w.table, c.saves w.table⟩)
  else ({ w with table := after.1 }, .error after.2)

def World.restore (w : World) (snapshot : Snapshot) : World :=
  { w with
    table := snapshot.before
    standing := w.standing.filter fun change => change.1 ≠ snapshot.call
    lost := if snapshot.change.learns then w.lost ++ missing w.table snapshot.before else w.lost }

def act {α : Type} : Op α → World → Env → World × α
  | .change c, w, _ => w.change c
  | .peers, w, _ => (w, w.table)
  | .isPeerExist mac, w, _ => (w, mac ∈ w.driver)
  | .addPeer mac, w, e =>
    if mac ∈ w.driver then (w, .fail)
    else (if e.error = .ok then { w with driver := insert mac w.driver } else w, e.error)
  | .modPeer mac, w, e => (w, if mac ∈ w.driver then e.error else .notFound)
  | .delPeer mac, w, e =>
    if mac ∈ w.driver then
      (if e.error = .ok then { w with driver := w.driver.erase mac } else w, e.error)
    else (w, .notFound)
  | .configureRate _, w, e => (w, e.error)
  | .restore snapshot, w, _ => (w.restore snapshot, w.table)
  | .rolledBack error, w, _ => ({ w with rollbackFailed := w.rollbackFailed || error != .ok }, ())
  | .readConfigured, w, _ => (w, configuredRecords w.table)
  | .nvsWrite store, w, e => (if e.error = .ok then { w with stored := store } else w, e.error)

def enabled {α : Type} : Op α → World → Prop
  | _, _ => True

instance {α : Type} (op : Op α) (w : World) : Decidable (enabled op w) := .isTrue trivial

def driverAddPeer (mac : Mac) : Program Op EspErr := do
  let known ← invoke (.isPeerExist mac)
  let error ← if known then invoke (.modPeer mac) else invoke (.addPeer mac)
  if error = .ok then invoke (.configureRate mac) else return error

/-- The first loop of `espnow_driver_reconcile_peers`. -/
def deletePeers (before : Table) (after : Program Op Table) : List (Fin peerMax) → Program Op EspErr
  | [] => return .ok
  | i :: todo =>
    match before i with
    | none => deletePeers before after todo
    | some p => do
      let t ← after
      if hasMac t p.mac then deletePeers before after todo
      else
        let known ← invoke (.isPeerExist p.mac)
        if known then
          let error ← invoke (.delPeer p.mac)
          if error ≠ .ok then return error else deletePeers before after todo
        else deletePeers before after todo

/-- The second loop of `espnow_driver_reconcile_peers`. -/
def addPeers (before : Table) (after : Program Op Table) : List (Fin peerMax) → Program Op EspErr
  | [] => return .ok
  | i :: todo => do
    let t ← after
    match t i with
    | none => addPeers before after todo
    | some p =>
      if hasMac before p.mac then addPeers before after todo
      else
        let error ← driverAddPeer p.mac
        if error ≠ .ok then return error else addPeers before after todo

/-- `espnow_driver_reconcile_peers`; `after` reads the second table. -/
def reconcilePeers (before : Table) (after : Program Op Table) : Program Op EspErr := do
  let error ← deletePeers before after (List.finRange peerMax)
  if error ≠ .ok then return error else addPeers before after (List.finRange peerMax)

def saveConfiguredPeers : Program Op EspErr := do
  let store ← invoke .readConfigured
  invoke (.nvsWrite store)

def rollback (snapshot : Snapshot) : Program Op Unit := do
  let failed ← invoke (.restore snapshot)
  let error ← reconcilePeers failed (pure snapshot.before)
  invoke (.rolledBack error)

/-- What a call does after its first section. -/
def settle (snapshot : Snapshot) : Program Op EspErr := do
  let error ← reconcilePeers snapshot.before (invoke .peers)
  if error ≠ .ok then
    rollback snapshot
    return error
  else
    let error ← if snapshot.saves then saveConfiguredPeers else pure .ok
    if error ≠ .ok then
      rollback snapshot
      return error
    else return .ok

def perform (c : Change) : Program Op EspErr := do
  let begun ← invoke (.change c)
  match begun with
  | .ok snapshot => settle snapshot
  | .error error => return error

def peerSet (linkId : UInt32) (mac : Mac) : Program Op EspErr :=
  if !linkIdValid linkId || !macValid mac then return .invalidArg else perform (.set linkId mac)

def peerRemove (linkId : UInt32) : Program Op EspErr :=
  if !linkIdValid linkId then return .invalidArg else perform (.remove linkId)

def peerLearn (linkId : UInt32) (mac : Mac) (rssi : Int) (nowMs : UInt32) : Program Op EspErr :=
  if !linkIdValid linkId || !macValid mac then return .invalidArg
  else perform (.learn linkId mac rssi nowMs)

def call : Change → Program Op EspErr
  | .set linkId mac => peerSet linkId mac
  | .remove linkId => peerRemove linkId
  | .learn linkId mac rssi nowMs => peerLearn linkId mac rssi nowMs

def body (c : Change) : Program Op (Change × EspErr) := do
  let error ← call c
  return (c, error)

abbrev Calls := Pool Op World (Change × EspErr)

/-- The changes that calls have returned `ESP_OK` for. -/
def returned (threads : List (Program Op (Change × EspErr))) : List Change :=
  threads.filterMap fun
    | .done (c, .ok) => some c
    | _ => none

/-- No two peers have one link id or one MAC address, and all have valid ones. -/
structure Table.Sound (t : Table) : Prop where
  ids : t.Distinct Peer.linkId
  macs : t.Distinct Peer.mac
  valid : ∀ i p, t i = some p → linkIdValid p.linkId = true ∧ macValid p.mac = true

def macs (t : Table) : Finset Mac := ((List.finRange peerMax).filterMap fun i => (t i).map Peer.mac).toFinset

/-- The service has been started with the peers of this table. -/
def started (t : Table) : Calls where
  state :=
    { table := t
      driver := insert broadcastMac (macs t)
      stored := configuredRecords t
      standing := []
      calls := 0
      lost := []
      rollbackFailed := false }
  threads := []

end SolarOs.EspNow.Peers
