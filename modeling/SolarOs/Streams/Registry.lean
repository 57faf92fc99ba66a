import SolarOs.Esp
import SolarOs.Library.Wrapping
import SolarOs.Library.Program
import SolarOs.Library.Slots

/-! The stream registry: its table, and the calls that register, open, use and close
streams, cut at the places where they let go of the registry's mutex. -/
namespace SolarOs.Streams
open Program

def streamMax : Nat := 40

def idMax : Nat := 24

def providerMax : Nat := 20

def deviceMax : Nat := 16

def unitMax : Nat := 16

def formatMax : Nat := 24

def summaryMax : Nat := 64

def ownerMax : Nat := 24

inductive Kind where
  | scalar
  | event
  | bytes
  | audio
  deriving DecidableEq

inductive Direction where
  | source
  | sink
  | duplex
  deriving DecidableEq

inductive Sharing where
  | shared
  | exclusive
  | fanout
  | mixed
  deriving DecidableEq

/-- A C string, without the zero at its end. -/
abbrev Text := List UInt8

structure AudioFormat where
  sampleRate : UInt32
  channels : UInt8
  bitsPerSample : UInt8
  deriving DecidableEq

/-- `solar_os_stream_driver_t`; of its functions, which ones there are. -/
structure Driver where
  id : Text
  provider : Text
  device : Text
  kind : Kind
  direction : Direction
  sharing : Sharing
  unit : Text
  format : Text
  summary : Text
  audio : AudioFormat
  hasOpen : Bool
  hasClose : Bool
  hasRead : Bool
  hasWrite : Bool
  hasReadScalar : Bool
  hasReadCsv : Bool
  deriving DecidableEq

def textValid (text : Text) (capacity : Nat) (required : Bool) : Bool :=
  text.length < capacity && (!required || text.length > 0)

def Direction.canRead (d : Direction) : Bool := d = .source || d = .duplex

def Direction.canWrite (d : Direction) : Bool := d = .sink || d = .duplex

def Direction.compatible (endpoint : Direction) : Direction → Bool
  | .duplex => endpoint = .duplex
  | .source => endpoint.canRead
  | .sink => endpoint.canWrite

/-- `stream_default_open_direction`. -/
def Direction.defaultOpen (endpoint : Direction) : Direction := if endpoint = .sink then .sink else .source

def Driver.valid (d : Driver) : Bool :=
  if !textValid d.id idMax true || !textValid d.provider providerMax true ||
      !textValid d.device deviceMax false || !textValid d.unit unitMax false ||
      !textValid d.format formatMax true || !textValid d.summary summaryMax false then false
  else if d.direction.canRead && !d.hasRead && !d.hasReadScalar && !d.hasReadCsv then false
  else if d.direction.canWrite && !d.hasWrite then false
  else if d.kind = .scalar && !d.hasReadScalar then false
  else !(d.kind = .audio && (d.audio.sampleRate = 0 || d.audio.channels = 0 || d.audio.bitsPerSample = 0))

/-- `stream_entry_t` of a registered stream. -/
structure Entry where
  driver : Driver
  activeHandles : UInt32
  owner : Text
  deriving DecidableEq

structure Handle where
  id : Text
  kind : Kind
  direction : Direction
  slot : Fin streamMax
  generation : UInt32
  /-- Which registration of its slot the handle is of. -/
  registration : Nat
  deriving DecidableEq

structure World where
  table : Slots streamMax Entry
  generations : Fin streamMax → UInt32
  /-- How often a slot has been registered. -/
  registrations : Fin streamMax → Nat
  /-- The handles of opens in progress. -/
  opening : Multiset Handle
  /-- The handles of opens that have succeeded and are not being closed. -/
  opened : Multiset Handle
  /-- The handles that are being closed. -/
  closing : Multiset Handle
  /-- All handles that have been written. -/
  issued : Multiset Handle
  /-- A handle was accepted in a later registration of its slot. -/
  mistaken : Bool
  deriving DecidableEq

section
variable (w : World)

/-- `stream_find_locked`. -/
def World.find (id : Text) : Option (Fin streamMax) :=
  if id = [] then none else w.table.find fun entry => entry.driver.id = id

/-- The locked section of `solar_os_stream_register`. -/
def World.register (driver : Driver) : World × EspErr :=
  if (w.find driver.id).isSome then (w, .invalidState)
  else
    match w.table.free with
    | none => (w, .noMem)
    | some i =>
      ({ w with
          table := w.table.put i ⟨driver, 0, []⟩
          generations := Function.update w.generations i (Generation.next (w.generations i))
          registrations := Function.update w.registrations i (w.registrations i + 1) }, .ok)

/-- The locked section of `solar_os_stream_unregister`. -/
def World.unregister (id : Text) : World × EspErr :=
  match w.find id with
  | none => (w, .notFound)
  | some i =>
    if (w.table i).any fun entry => entry.activeHandles ≠ 0 then (w, .invalidState)
    else ({ w with table := w.table.clear i }, .ok)

def sharedOwner : Text := [115, 104, 97, 114, 101, 100]

def World.handle (i : Fin streamMax) (entry : Entry) (direction : Direction) : Handle :=
  ⟨entry.driver.id, entry.driver.kind, direction, i, w.generations i, w.registrations i⟩

/-- The first locked section of `solar_os_stream_open_ex`; it also tells whether the driver
has a function to open. -/
def World.beginOpen (id owner : Text) (options : Option Direction) :
    World × Except EspErr (Handle × Bool) :=
  match w.find id with
  | none => (w, .error .notFound)
  | some i =>
    match w.table i with
    | none => (w, .error .notFound)
    | some entry =>
      let direction := options.getD entry.driver.direction.defaultOpen
      if !entry.driver.direction.compatible direction then (w, .error .notSupported)
      else if entry.driver.sharing = .exclusive ∧ entry.activeHandles ≠ 0 then (w, .error .invalidState)
      else
        let handle := w.handle i entry direction
        let owner := if entry.driver.sharing = .exclusive then owner else sharedOwner
        let counted :=
          { w with
            table := w.table.put i { entry with activeHandles := entry.activeHandles + 1, owner }
            issued := handle ::ₘ w.issued }
        if entry.driver.hasOpen then ({ counted with opening := handle ::ₘ w.opening }, .ok (handle, true))
        else ({ counted with opened := handle ::ₘ w.opened }, .ok (handle, false))

def World.accepts (h : Handle) : Bool :=
  (w.table h.slot).isSome && w.generations h.slot = h.generation

/-- The count of handles goes down, at the end of a close or of an open that failed. -/
def World.uncount (h : Handle) : World :=
  match w.table h.slot with
  | none => w
  | some entry =>
    if w.accepts h ∧ entry.activeHandles > 0 then
      { w with
        table := w.table.put h.slot
          { entry with
            activeHandles := entry.activeHandles - 1
            owner := if entry.activeHandles - 1 = 0 then [] else entry.owner } }
    else w

def World.handleValid (h : Handle) : Bool :=
  w.accepts h && (w.table h.slot).any fun entry => entry.driver.id = h.id

def World.noteAccepted (h : Handle) : World :=
  { w with mistaken := w.mistaken || h.registration != w.registrations h.slot }

end

inductive Access where
  | read
  | write
  | readScalar
  | readCsv
  deriving DecidableEq

/-- What the first locked sections of `solar_os_stream_read`, `solar_os_stream_write`,
`solar_os_stream_read_scalar` and `solar_os_stream_read_csv` say, the handle being accepted. -/
def Driver.allows (d : Driver) (h : Handle) : Access → EspErr
  | .read => if !h.direction.canRead || !d.hasRead then .notSupported else .ok
  | .write => if !h.direction.canWrite || !d.hasWrite then .notSupported else .ok
  | .readScalar => if h.kind ≠ .scalar ∨ !h.direction.canRead ∨ !d.hasReadScalar then .notSupported else .ok
  | .readCsv => .ok

structure Env where
  error : EspErr

/-- The locked sections and the driver's functions. -/
inductive Op : Type → Type
  | register (driver : Driver) : Op EspErr
  | unregister (id : Text) : Op EspErr
  | beginOpen (id owner : Text) (options : Option Direction) : Op (Except EspErr (Handle × Bool))
  | driverOpen (h : Handle) : Op EspErr
  | abandon (h : Handle) : Op Unit
  | handleValid (h : Handle) : Op Bool
  | closeFunction (h : Handle) : Op Bool
  | driverClose (h : Handle) : Op Unit
  | finish (h : Handle) : Op Unit
  | access (h : Handle) (access : Access) : Op EspErr
  | driverAccess (h : Handle) (access : Access) : Op EspErr

def act {α : Type} : Op α → World → Env → World × α
  | .register driver, w, _ => w.register driver
  | .unregister id, w, _ => w.unregister id
  | .beginOpen id owner options, w, _ => w.beginOpen id owner options
  | .driverOpen h, w, e =>
    (if e.error = .ok then { w with opening := w.opening.erase h, opened := h ::ₘ w.opened } else w, e.error)
  | .abandon h, w, _ => ({ w.uncount h with opening := w.opening.erase h }, ())
  | .handleValid h, w, _ =>
    if w.handleValid h then
      ({ w.noteAccepted h with opened := w.opened.erase h, closing := h ::ₘ w.closing }, true)
    else (w, false)
  | .closeFunction h, w, _ => (w, (w.table h.slot).any fun entry => entry.driver.hasClose)
  | .driverClose _, w, _ => (w, ())
  | .finish h, w, _ => ({ w.uncount h with closing := w.closing.erase h }, ())
  | .access h access, w, _ =>
    if w.accepts h then
      (w.noteAccepted h, ((w.table h.slot).map fun entry => entry.driver.allows h access).getD .invalidState)
    else (w, .invalidState)
  | .driverAccess _ _, w, e => (w, e.error)

def enabled {α : Type} : Op α → World → Prop
  | _, _ => True

instance {α : Type} (op : Op α) (w : World) : Decidable (enabled op w) := .isTrue trivial

def register (driver : Driver) : Program Op EspErr :=
  if !driver.valid then return .invalidArg else invoke (.register driver)

def unregister (id : Text) : Program Op EspErr :=
  if !textValid id idMax true then return .invalidArg else invoke (.unregister id)

def openEx (id owner : Text) (options : Option Direction) : Program Op EspErr :=
  if !textValid id idMax true || !textValid owner ownerMax true then return .invalidArg
  else do
    let begun ← invoke (.beginOpen id owner options)
    match begun with
    | .error error => return error
    | .ok (_, false) => return .ok
    | .ok (h, true) =>
      let error ← invoke (.driverOpen h)
      if error ≠ .ok then
        invoke (.abandon h)
        return error
      else return .ok

def close (h : Handle) : Program Op EspErr := do
  let valid ← invoke (.handleValid h)
  if valid then
    let close ← invoke (.closeFunction h)
    if close then
      invoke (.driverClose h)
      invoke (.finish h)
      return .ok
    else
      invoke (.finish h)
      return .ok
  else return .ok

/-- `solar_os_stream_read`, `solar_os_stream_write` and their like. -/
def access (h : Handle) (a : Access) : Program Op EspErr := do
  let error ← invoke (.access h a)
  if error ≠ .ok then return error else invoke (.driverAccess h a)

inductive Call where
  | register (driver : Driver)
  | unregister (id : Text)
  | openEx (id owner : Text) (options : Option Direction)
  | close (h : Handle)
  | access (h : Handle) (a : Access)

def body : Call → Program Op EspErr
  | .register driver => register driver
  | .unregister id => unregister id
  | .openEx id owner options => openEx id owner options
  | .close h => close h
  | .access h a => access h a

abbrev Calls := Pool Op World EspErr

/-- Nothing has been registered. -/
def boot : Calls where
  state :=
    { table := .empty
      generations := fun _ => 0
      registrations := fun _ => 0
      opening := 0
      opened := 0
      closing := 0
      issued := 0
      mistaken := false }
  threads := []

def World.outstanding (w : World) : Multiset Handle := w.opening + w.opened + w.closing

/-- The registry's count of handles is right, and no handle outlives its registration. -/
structure World.Accounted (w : World) : Prop where
  counted : ∀ i entry, w.table i = some entry →
    entry.activeHandles.toNat = w.outstanding.countP fun h => h.slot = i
  exclusive : ∀ i entry, w.table i = some entry → entry.driver.sharing = .exclusive →
    (w.outstanding.countP fun h => h.slot = i) ≤ 1
  registered : ∀ h ∈ w.outstanding, (w.table h.slot).isSome ∧ h.registration = w.registrations h.slot
  unmistaken : w.mistaken = false

end SolarOs.Streams
