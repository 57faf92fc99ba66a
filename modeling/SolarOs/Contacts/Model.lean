import SolarOs.Esp
import SolarOs.Library.CString
import SolarOs.Library.Slots

/-! The contacts of `solar_os_contacts.c` in memory: two tables, their counters and what
the calls do to them. -/
namespace SolarOs.Contacts

def contactCapacity : Nat := 64
def endpointCapacity : Nat := 80
def nameMax : Nat := 32
def providerMetadataMax : Nat := 48
def addressMax : Nat := 32
def uint32Max : Nat := 4294967295

/-- `solar_os_messaging_provider_id_t`, which callers may also get wrong. -/
abbrev ProviderId := Nat

inductive Trust where
  | discovered | trusted | blocked
  deriving DecidableEq

structure Contact where
  id : Nat
  flags : UInt32
  createdMs : Nat
  updatedMs : Nat
  displayName : CString
  deriving DecidableEq

def flagPinned : UInt32 := 1

def Contact.pinned (c : Contact) : Bool := c.flags &&& flagPinned != 0

structure Endpoint where
  id : Nat
  contactId : Nat
  provider : ProviderId
  trust : Trust
  capabilities : Nat
  lastSeenMs : Nat
  address : List UInt8
  providerMetadata : List UInt8
  deriving DecidableEq

structure State where
  generation : Nat
  nextContactId : Nat
  nextEndpointId : Nat
  evicted : Nat
  contactCount : Nat
  endpointCount : Nat
  contacts : Slots contactCapacity Contact
  endpoints : Slots endpointCapacity Endpoint

/-- The tables when nothing is stored. -/
def initial : State where
  generation := 1
  nextContactId := 1
  nextEndpointId := 1
  evicted := 0
  contactCount := 0
  endpointCount := 0
  contacts := .empty
  endpoints := .empty

def nextGeneration (generation : Nat) : Nat :=
  if (generation + 1) % 4294967296 ≠ 0 then (generation + 1) % 4294967296 else 1

variable (s : State)

def changed : State := { s with generation := nextGeneration s.generation }

section
variable (provider : ProviderId)

def providerValid : Bool := 1 ≤ provider && provider ≤ 3

def findContact (id : Nat) : Option (Fin contactCapacity) :=
  if id = 0 then none else s.contacts.find fun c => c.id = id

def findEndpointId (id : Nat) : Option (Fin endpointCapacity) :=
  if id = 0 then none else s.endpoints.find fun e => e.id = id

def findEndpointAddress (address : List UInt8) :
    Option (Fin endpointCapacity) :=
  s.endpoints.find fun e => (e.provider, e.address) = (provider, address)

/-- The id after `id`, which is never 0. -/
def nextId (id : Nat) : Nat := if id = uint32Max then 1 else id + 1

def allocate (inUse : Nat → Bool) : Nat → Nat → Nat × Nat
  | 0, next => (0, next)
  | attempts + 1, next =>
    if next ≠ 0 && !inUse next then (next, nextId next) else allocate inUse attempts (nextId next)

def allocateId : State × Nat :=
  let r := allocate (fun id => (findContact s id).isSome) (contactCapacity + 1) s.nextContactId
  ({ s with nextContactId := r.2 }, r.1)

def allocateEndpointId : State × Nat :=
  let r := allocate (fun id => (findEndpointId s id).isSome) (endpointCapacity + 1) s.nextEndpointId
  ({ s with nextEndpointId := r.2 }, r.1)

def contactIsEvictable (contactId : Nat) : Bool :=
  match (findContact s contactId).bind s.contacts with
  | none => false
  | some contact =>
    !contact.pinned &&
      (s.endpoints.find fun e => e.contactId = contactId ∧ e.trust ≠ .discovered).isNone

/-- `contacts_remove_locked`: the contact goes, and its endpoints with it. -/
def removeContact (id : Nat) : State :=
  match findContact s id with
  | none => s
  | some i =>
    { s with
      endpoints := s.endpoints.drop fun e => e.contactId = id
      endpointCount := s.endpointCount - s.endpoints.tally fun e => e.contactId = id
      contacts := s.contacts.clear i
      contactCount := s.contactCount - 1 }

/-- The evictable contact that was updated first, with the time of that. -/
def oldestEvictable : Option (Contact × Nat) :=
  (List.finRange contactCapacity).foldl
    (fun oldest i =>
      match s.contacts i with
      | some contact =>
        if contactIsEvictable s contact.id && oldest.all fun o => contact.updatedMs < o.2 then
          some (contact, contact.updatedMs)
        else oldest
      | none => oldest)
    none

/-- `contacts_evict_oldest_locked`. -/
def evictOldest : State × Bool :=
  match oldestEvictable s with
  | none => (s, false)
  | some (contact, _) =>
    ({ removeContact s contact.id with evicted := (s.evicted + 1) % 4294967296 }, true)

inductive Buffer where
  | null (length : Nat)
  | bytes (data : List UInt8)

def Buffer.length : Buffer → Nat
  | .null length => length
  | .bytes data => data.length

structure Discovery where
  provider : ProviderId
  address : Buffer
  displayName : Option CString
  capabilities : Nat
  lastSeenMs : Nat
  providerMetadata : Buffer

def providerName : String :=
  match provider with
  | 1 => "gateway"
  | 2 => "meshcore"
  | 3 => "link"
  | _ => "unknown"

def hexDigit (n : Nat) : UInt8 := if n < 10 then UInt8.ofNat (48 + n) else UInt8.ofNat (87 + n)

/-- `contacts_default_name`: the provider and the end of the address. -/
def defaultName (address : List UInt8) : CString :=
  (CString.ofBytes ((providerName provider).toUTF8.toList ++ [45] ++
    (address.drop (address.length - 4)).flatMap fun b =>
      [hexDigit (b.toNat / 16), hexDigit (b.toNat % 16)])).strlcpy (nameMax + 1)

end

section
variable (request : Discovery)

def contactName (address : List UInt8) : CString :=
  match request.displayName with
  | some name =>
    if name.bytes ≠ [] then name.strlcpy (nameMax + 1) else defaultName request.provider address
  | none => defaultName request.provider address

/-- `last_seen_ms`, or the time now. -/
def seenAt (now : Nat) : Nat :=
  if request.lastSeenMs ≠ 0 then request.lastSeenMs else now

/-- The part of `solar_os_contacts_upsert_discovered` for an address it knows. -/
def refresh (metadata : List UInt8) (now : Nat)
    (i : Fin endpointCapacity) (endpoint : Endpoint) : State × Except EspErr (Nat × Nat) :=
  let seen := seenAt request now
  let endpoints := s.endpoints.put i { endpoint with
    capabilities := request.capabilities, lastSeenMs := seen, providerMetadata := metadata }
  match findContact s endpoint.contactId with
  | some j =>
    (changed { s with
        endpoints, contacts := s.contacts.modify j fun c => { c with updatedMs := seen } },
      .ok (endpoint.contactId, endpoint.id))
  | none => (changed { s with endpoints }, .ok (0, endpoint.id))

def roomForContact : State × Option (Fin contactCapacity) :=
  match s.contacts.free with
  | some i => (s, some i)
  | none => if (evictOldest s).2 then ((evictOldest s).1, (evictOldest s).1.contacts.free) else (s, none)

/-- A new contact with one endpoint. -/
def insertContact (address metadata : List UInt8) (now : Nat)
    (i : Fin contactCapacity) (j : Fin endpointCapacity) (contactId endpointId : Nat) : State :=
  let seen := seenAt request now
  changed { s with
    contacts := s.contacts.put i
      { id := contactId
        flags := 0
        createdMs := seen
        updatedMs := seen
        displayName := contactName request address }
    endpoints := s.endpoints.put j
      { id := endpointId
        contactId
        provider := request.provider
        trust := .discovered
        capabilities := request.capabilities
        lastSeenMs := seen
        address
        providerMetadata := metadata }
    contactCount := s.contactCount + 1
    endpointCount := s.endpointCount + 1 }

/-- The part of `solar_os_contacts_upsert_discovered` for an address it does not know. -/
def discover (address metadata : List UInt8) (now : Nat) :
    State × Except EspErr (Nat × Nat) :=
  let (s, contactSlot) := roomForContact s
  match contactSlot, s.endpoints.free with
  | some i, some j =>
    let (s, contactId) := allocateId s
    let (s, endpointId) := allocateEndpointId s
    if contactId = 0 ∨ endpointId = 0 then (s, .error .noMem)
    else (insertContact s request address metadata now i j contactId endpointId,
      .ok (contactId, endpointId))
  | _, _ => (s, .error .noMem)

/-- What the arguments of `solar_os_contacts_upsert_discovered` are checked for. -/
def discoveryValid : Option (List UInt8 × List UInt8) :=
  match request.address, request.providerMetadata with
  | .bytes address, .bytes metadata =>
    if providerValid request.provider ∧ address.length ≠ 0 ∧ address.length ≤ addressMax ∧
        metadata.length ≤ providerMetadataMax then some (address, metadata)
    else none
  | .bytes address, .null length =>
    if providerValid request.provider ∧ address.length ≠ 0 ∧ address.length ≤ addressMax ∧
        length = 0 then some (address, [])
    else none
  | .null _, _ => none

/-- `solar_os_contacts_upsert_discovered`; the ids of the contact and the endpoint. -/
def upsertDiscovered (now : Nat) :
    State × Except EspErr (Nat × Nat) :=
  match discoveryValid request with
  | none => (s, .error .invalidArg)
  | some (address, metadata) =>
    match findEndpointAddress s request.provider address with
    | some i =>
      match s.endpoints i with
      | some endpoint => refresh s request metadata now i endpoint
      | none => (s, .error .noMem)
    | none => discover s request address metadata now

end

def rename (id : Nat) (displayName : Option CString) (now : Nat) : State × EspErr :=
  match displayName with
  | none => (s, .invalidArg)
  | some name =>
    if id = 0 ∨ name.bytes = [] ∨ name.strlen > nameMax then (s, .invalidArg)
    else
      match findContact s id with
      | some i =>
        (changed { s with
            contacts := s.contacts.modify i fun c =>
              { c with displayName := name.strlcpy (nameMax + 1), updatedMs := now } },
          .ok)
      | none => (s, .notFound)

/-- `solar_os_contacts_set_trust`; `none` is a trust there is not. -/
def setTrust (contactId endpointId : Nat) (trust : Option Trust) (now : Nat) :
    State × EspErr :=
  match trust with
  | none => (s, .invalidArg)
  | some trust =>
    if contactId = 0 then (s, .invalidArg)
    else
      match findContact s contactId with
      | none => (s, .notFound)
      | some i =>
        let mine := fun e : Endpoint =>
          decide (e.contactId = contactId ∧ (endpointId = 0 ∨ e.id = endpointId))
        if s.endpoints.tally mine = 0 then (s, .notFound)
        else
          (changed { s with
              endpoints := s.endpoints.change mine fun e => { e with trust }
              contacts := s.contacts.modify i fun c => { c with updatedMs := now } },
            .ok)

def remove (id : Nat) : State × EspErr :=
  if id = 0 then (s, .invalidArg)
  else if (findContact s id).isSome then (changed (removeContact s id), .ok)
  else (s, .notFound)

def link (targetId sourceId : Nat) (now : Nat) : State × EspErr :=
  if targetId = 0 ∨ sourceId = 0 ∨ targetId = sourceId then (s, .invalidArg)
  else
    match findContact s targetId, findContact s sourceId with
    | some target, some source =>
      (changed { s with
          endpoints := s.endpoints.change (fun e => e.contactId = sourceId) fun e =>
            { e with contactId := targetId }
          contacts := (s.contacts.modify target fun c => { c with updatedMs := now }).clear source
          contactCount := s.contactCount - 1 },
        .ok)
    | _, _ => (s, .notFound)

inductive Call where
  | upsertDiscovered (request : Discovery)
  | rename (id : Nat) (displayName : Option CString)
  | setTrust (contactId endpointId : Nat) (trust : Option Trust)
  | remove (id : Nat)
  | link (targetId sourceId : Nat)

def call : Call → Nat → State
  | .upsertDiscovered request, now => (upsertDiscovered s request now).1
  | .rename id displayName, now => (rename s id displayName now).1
  | .setTrust contactId endpointId trust, now => (setTrust s contactId endpointId trust now).1
  | .remove id, _ => (remove s id).1
  | .link targetId sourceId, now => (link s targetId sourceId now).1

structure StoreData where
  generation : Nat
  nextContactId : Nat
  nextEndpointId : Nat
  evicted : Nat
  contactCount : Nat
  endpointCount : Nat
  contacts : Slots contactCapacity Contact
  endpoints : Slots endpointCapacity Endpoint

def Contact.toDisk (c : Contact) : Contact :=
  { c with displayName := c.displayName.strlcpy (nameMax + 1) }

def Endpoint.toDisk (e : Endpoint) : Endpoint := { e with provider := e.provider % 256 }

/-- `contacts_runtime_to_disk_locked`. -/
def runtimeToDisk : StoreData where
  generation := s.generation
  nextContactId := s.nextContactId
  nextEndpointId := s.nextEndpointId
  evicted := s.evicted
  contactCount := s.contactCount % 65536
  endpointCount := s.endpointCount % 65536
  contacts := fun i => (s.contacts i).map Contact.toDisk
  endpoints := fun j => (s.endpoints j).map Endpoint.toDisk

variable (data : StoreData)

def diskHasContact (contactId : Nat) : Bool :=
  (data.contacts.find fun c => c.id = contactId).isSome

def diskContactValid (c : Contact) : Bool := c.id ≠ 0 ∧ c.displayName.strlen ≤ nameMax

def diskEndpointValid (e : Endpoint) : Bool :=
  e.id ≠ 0 && diskHasContact data e.contactId && providerValid e.provider && e.address.length ≠ 0 &&
    e.address.length ≤ addressMax && e.providerMetadata.length ≤ providerMetadataMax

def storeDataValid : Bool :=
  data.generation ≠ 0 && data.nextContactId ≠ 0 && data.nextEndpointId ≠ 0 &&
    data.contactCount ≤ contactCapacity && data.endpointCount ≤ endpointCapacity &&
    (data.contacts.find fun c => !diskContactValid c).isNone &&
    (data.endpoints.find fun e => !diskEndpointValid data e).isNone &&
    data.contacts.count = data.contactCount && data.endpoints.count = data.endpointCount

def diskToRuntime : State where
  generation := data.generation
  nextContactId := data.nextContactId
  nextEndpointId := data.nextEndpointId
  evicted := data.evicted
  contactCount := data.contactCount
  endpointCount := data.endpointCount
  contacts := fun i => (data.contacts i).map Contact.toDisk
  endpoints := data.endpoints

end SolarOs.Contacts
