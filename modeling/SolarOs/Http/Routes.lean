import SolarOs.Esp
import SolarOs.Library.Program
import SolarOs.Library.Slots
import Mathlib.Data.Multiset.AddSub
import Mathlib.Data.Multiset.Count
import SolarOs.Library.Rights

/-! The routes of the HTTP server: its table, and the calls that register and unregister
routes and dispatch requests, cut at the places where they hold `http_server_lock`. -/
namespace SolarOs.Http
open Program

def routeMax : Nat := 10

def ownerMax : Nat := 24

def uriMax : Nat := 96

def stopWaitMs : Nat := 3000

/-- A C string, without the zero at its end. -/
abbrev Text := List UInt8

inductive Method where
  | get
  | post
  | other (value : Nat)
  deriving DecidableEq

inductive Auth where
  | isPublic
  | view
  | control
  deriving DecidableEq

/-- `solar_os_http_route_t`; of the handler, which one it is, if there is one. -/
structure Route where
  owner : Text
  uri : Text
  method : Method
  byPrefix : Bool
  auth : Auth
  handler : Option Nat
  deriving DecidableEq

structure Slot where
  active : Bool
  refs : Nat
  route : Route
  deriving DecidableEq

structure Selection where
  slot : Fin routeMax
  route : Route
  deriving DecidableEq

structure World where
  table : Slots routeMax Slot
  /-- There is a handle in `http_server`. -/
  httpServer : Bool
  bearerToken : Text
  /-- A server has been started and has not come to its stop. -/
  serverUp : Bool
  /-- The requests that the server is at work on. -/
  requests : Nat
  /-- What the dispatches have selected that have not finished. -/
  selected : Multiset Selection
  /-- How often each owner has registered a route. -/
  registrations : Text → Nat
  /-- The owners that were unregistered with `ESP_OK` and have not registered since. -/
  departed : Text → Bool
  /-- A registration that failed took the route of another owner with it. -/
  ousted : Bool

structure Env where
  ok : Bool
  token : Text
  error : EspErr

/-- The critical sections, and the calls into the server and the handlers. -/
inductive Op : Type → Type
  | reserve (route : Route) : Op (Except EspErr (Fin routeMax))
  | isRunning : Op Bool
  | admitManaged : Op Bool
  | httpdStart : Op EspErr
  | registerUri : Op EspErr
  | httpdStop : Op Unit
  | generateToken : Op Text
  | publish (token : Text) : Op Unit
  | abandon (slot : Fin routeMax) (owner : Text) : Op Unit
  | deactivate (owner : Text) : Op (Bool × Bool × Nat)
  | isBusy (owner : Text) : Op Bool
  | clear (owner : Text) (registrations : Nat) : Op Unit
  | arrive : Op Unit
  | select (method : Method) (path : Text) : Op (Option Selection)
  | readToken : Op Text
  | handle (selection : Selection) : Op EspErr
  | respond : Op EspErr
  | release (selection : Selection) : Op Unit
  | leave : Op Unit

/-- `request_path_len`: the path ends at the question mark. -/
def requestPath (uri : Text) : Text := uri.takeWhile (· ≠ 63)

def routeMatches (slot : Slot) (method : Method) (path : Text) : Bool :=
  slot.active && slot.route.handler.isSome && slot.route.method = method &&
    if slot.route.byPrefix then slot.route.uri.isPrefixOf path else slot.route.uri = path

def better (route best : Route) : Bool :=
  (!route.byPrefix && best.byPrefix) ||
    (route.byPrefix = best.byPrefix && best.uri.length < route.uri.length)

/-- The loop of `find_route_locked`. -/
def findRoute (table : Slots routeMax Slot) (method : Method) (path : Text) :
    List (Fin routeMax) → Option Selection → Option Selection
  | [], best => best
  | i :: rest, best =>
    let best :=
      match table i with
      | none => best
      | some slot =>
        if routeMatches slot method path then
          match best with
          | none => some ⟨i, slot.route⟩
          | some found => if better slot.route found.route then some ⟨i, slot.route⟩ else best
        else best
    findRoute table method path rest best

namespace World

variable (w : World)

def activeAt (i : Fin routeMax) : Bool := (w.table i).any (·.active)

def anyActive : Bool := (List.finRange routeMax).any w.activeAt

def vacant (i : Fin routeMax) : Bool :=
  (w.table i).all fun slot => !slot.active && slot.refs = 0

/-- The critical section that fills a slot. -/
def reserve (route : Route) : World × Except EspErr (Fin routeMax) :=
  if (w.table.find fun slot => slot.active && slot.route.method = route.method && slot.route.uri = route.uri).isSome
  then (w, .error .invalidState)
  else
    match (List.finRange routeMax).find? w.vacant with
    | none => (w, .error .noMem)
    | some i =>
      ({ w with
        table := w.table.put i ⟨true, 0, route⟩
        registrations := Function.update w.registrations route.owner (w.registrations route.owner + 1)
        departed := Function.update w.departed route.owner false }, .ok i)

def abandon (i : Fin routeMax) (owner : Text) : World :=
  { w with
    table := w.table.clear i
    ousted := w.ousted || (w.table i).any fun slot => slot.active && slot.route.owner ≠ owner }

/-- The critical section that takes the routes of an owner out of service: whether there
were any, and whether the server is to be stopped. -/
def deactivate (owner : Text) : World × Bool × Bool × Nat :=
  let found := (w.table.find fun slot => slot.route.owner = owner).isSome
  let w' := { w with table := w.table.change (fun slot => slot.route.owner = owner) fun slot =>
    { slot with active := false } }
  if found && !w'.anyActive then
    ({ w' with httpServer := false, bearerToken := [] }, true, w.httpServer, w.registrations owner)
  else (w', found, false, w.registrations owner)

def isBusy (owner : Text) : Bool :=
  (w.table.find fun slot => slot.route.owner = owner && slot.refs ≠ 0).isSome

/-- The critical section that ends an unregistration. The owner is gone unless it has
registered again since its routes were taken out of service. -/
def clear (owner : Text) (registrations : Nat) : World :=
  { w with
    table := w.table.drop fun slot => !slot.active && slot.route.owner = owner
    departed :=
      if w.registrations owner = registrations then Function.update w.departed owner true else w.departed }

def select (method : Method) (path : Text) : World × Option Selection :=
  match findRoute w.table method path (List.finRange routeMax) none with
  | none => (w, none)
  | some selection =>
    ({ w with
      table := w.table.modify selection.slot fun slot => { slot with refs := slot.refs + 1 }
      selected := selection ::ₘ w.selected }, some selection)

def release (selection : Selection) : World :=
  { w with
    table := w.table.modify selection.slot fun slot => { slot with refs := slot.refs - 1 }
    selected := w.selected.erase selection }

end World

/-- A server can only be started when there is no other. -/
def act {α : Type} : Op α → World → Env → World × α
  | .reserve route, w, _ => w.reserve route
  | .isRunning, w, _ => (w, w.httpServer)
  | .admitManaged, w, e => (w, e.ok)
  | .httpdStart, w, e =>
    if w.serverUp then (w, if e.error = .ok then .fail else e.error)
    else (if e.error = .ok then { w with serverUp := true } else w, e.error)
  | .registerUri, w, e => (w, e.error)
  | .httpdStop, w, _ => ({ w with serverUp := false }, ())
  | .generateToken, w, e => (w, e.token)
  | .publish token, w, _ => ({ w with httpServer := true, bearerToken := token }, ())
  | .abandon i owner, w, _ => (w.abandon i owner, ())
  | .deactivate owner, w, _ => w.deactivate owner
  | .isBusy owner, w, _ => (w, w.isBusy owner)
  | .clear owner registrations, w, _ => (w.clear owner registrations, ())
  | .arrive, w, _ => ({ w with requests := w.requests + 1 }, ())
  | .select method path, w, _ => w.select method path
  | .readToken, w, _ => (w, w.bearerToken)
  | .handle _, w, e => (w, e.error)
  | .respond, w, e => (w, e.error)
  | .release selection, w, _ => (w.release selection, ())
  | .leave, w, _ => ({ w with requests := w.requests - 1 }, ())

def enabled {α : Type} : Op α → World → Prop
  | .arrive, w => w.serverUp = true
  | .httpdStop, w => w.requests = 0
  | _, _ => True

instance {α : Type} (op : Op α) (w : World) : Decidable (enabled op w) := by
  cases op <;> unfold enabled <;> infer_instance

/-- What `start_server` does with a server that has been started. -/
def equip : Program Op EspErr := do
  let get ← invoke .registerUri
  let ret ← if get = .ok then invoke .registerUri else pure get
  if ret ≠ .ok then
    invoke .httpdStop
    return ret
  else
    let token ← invoke .generateToken
    invoke (.publish token)
    return .ok

def startServer : Program Op EspErr := do
  if ← invoke .isRunning then
    return .ok
  else if (← invoke .admitManaged) = false then
    return .noMem
  else
    let ret ← invoke .httpdStart
    if ret ≠ .ok then
      return ret
    else
      equip

def ownerValid (owner : Text) : Bool := !owner.isEmpty && owner.length < ownerMax

def Route.valid (route : Route) : Bool :=
  ownerValid route.owner && route.uri.head? = some 47 && route.uri.length < uriMax && route.handler.isSome

def registerRoute (route : Route) : Program Op EspErr := do
  if !route.valid then
    return .invalidArg
  else
    match ← invoke (.reserve route) with
    | .error error => return error
    | .ok i =>
      let ret ← startServer
      if ret ≠ .ok then
        invoke (.abandon i route.owner)
      else pure ()
      return ret

/-- The loop that waits for the handlers of an owner. -/
def waitIdle (owner : Text) (registrations : Nat) : Nat → Program Op EspErr
  | 0 => return .timeout
  | rounds + 1 => do
    if ← invoke (.isBusy owner) then
      waitIdle owner registrations rounds
    else
      invoke (.clear owner registrations)
      return .ok

def unregisterOwner (owner : Text) : Program Op EspErr := do
  if !ownerValid owner then
    return .invalidArg
  else
    let (found, stop, registrations) ← invoke (.deactivate owner)
    if !found then
      return .notFound
    else
      if stop then
        invoke .httpdStop
      else pure ()
      waitIdle owner registrations (stopWaitMs / 10)

structure Request where
  method : Method
  uri : Text
  authorization : Text

/-- `"Bearer "`. -/
def bearer : Text := [66, 101, 97, 114, 101, 114, 32]

def isAuthorized (request : Request) (auth : Auth) : Program Op Bool := do
  if auth = .isPublic then
    return true
  else
    let token ← invoke .readToken
    return !token.isEmpty && request.authorization = bearer ++ token

/-- `dispatch_request`, within what the server does with the request. -/
def dispatchRequest (request : Request) : Program Op EspErr := do
  invoke .arrive
  match ← invoke (.select request.method (requestPath request.uri)) with
  | none =>
    let ret ← invoke .respond
    invoke .leave
    return ret
  | some selection =>
    let authorized ← isAuthorized request selection.route.auth
    let ret ← if authorized then invoke (.handle selection) else invoke .respond
    invoke (.release selection)
    invoke .leave
    return ret

inductive Call where
  | registerRoute (route : Route)
  | unregisterOwner (owner : Text)
  | dispatchRequest (request : Request)

def body : Call → Program Op EspErr
  | .registerRoute route => registerRoute route
  | .unregisterOwner owner => unregisterOwner owner
  | .dispatchRequest request => dispatchRequest request

abbrev Calls := Pool Op World EspErr

/-- Before anything is registered. -/
def boot : Calls where
  state :=
    { table := .empty
      httpServer := false
      bearerToken := []
      serverUp := false
      requests := 0
      selected := 0
      registrations := fun _ => 0
      departed := fun _ => false
      ousted := false }
  threads := []

variable {w w' : World} {i : Fin routeMax} {slot : Slot} {owner : Text} {s : Selection}

/-- What an unregistration has seen: the owner's registrations so far, and perhaps that
none of its handlers is at work. -/
structure Mark where
  owner : Text
  registrations : Nat
  drained : Bool

/-- The selections of the dispatches and the slots of the registrations in progress, the
servers that they have at hand, and the marks of the unregistrations. -/
abbrev Rights := (Multiset Selection × Multiset (Fin routeMax)) × Nat × Multiset Mark

def holding (s : Selection) : Rights := (({s}, 0), 0, 0)

def filled (i : Fin routeMax) : Rights := ((0, {i}), 0, 0)

def server : Rights := ((0, 0), 1, 0)

def marked (mark : Mark) : Rights := ((0, 0), 0, {mark})

/-- What the operations take and give. -/
inductive Deals : {β : Type} → Op β → Deal Rights β → Prop
  | reserve (route : Route) :
    Deals (.reserve route) ⟨0, fun | .ok i => filled i | .error _ => 0, fun _ => True⟩
  | isRunning (i : Fin routeMax) :
    Deals .isRunning ⟨filled i, fun running => if running then 0 else filled i, fun _ => True⟩
  | admitManaged : Deals .admitManaged ⟨0, fun _ => 0, fun _ => True⟩
  | httpdStart : Deals .httpdStart ⟨0, fun error => if error = .ok then server else 0, fun _ => True⟩
  | registerUri : Deals .registerUri ⟨0, fun _ => 0, fun _ => True⟩
  | httpdStop : Deals .httpdStop ⟨server, fun _ => 0, fun _ => True⟩
  | generateToken : Deals .generateToken ⟨0, fun _ => 0, fun _ => True⟩
  | publish (i : Fin routeMax) (token : Text) :
    Deals (.publish token) ⟨filled i + server, fun _ => 0, fun _ => True⟩
  | abandon (i : Fin routeMax) (owner : Text) : Deals (.abandon i owner) ⟨filled i, fun _ => 0, fun _ => True⟩
  | deactivate (owner : Text) :
    Deals (.deactivate owner)
      ⟨0, fun (found, stop, registrations) =>
        if found then marked ⟨owner, registrations, false⟩ + (if stop then server else 0) else 0, fun _ => True⟩
  | isBusy (owner : Text) (registrations : Nat) (again : Bool) :
    Deals (.isBusy owner)
      ⟨marked ⟨owner, registrations, false⟩, fun busy =>
        if busy then (if again then marked ⟨owner, registrations, false⟩ else 0)
        else marked ⟨owner, registrations, true⟩, fun _ => True⟩
  | clear (owner : Text) (registrations : Nat) :
    Deals (.clear owner registrations) ⟨marked ⟨owner, registrations, true⟩, fun _ => 0, fun _ => True⟩
  | arrive : Deals .arrive ⟨0, fun _ => 0, fun _ => True⟩
  | select (method : Method) (path : Text) :
    Deals (.select method path) ⟨0, fun | some s => holding s | none => 0, fun _ => True⟩
  | readToken : Deals .readToken ⟨0, fun _ => 0, fun _ => True⟩
  | handle (s : Selection) : Deals (.handle s) ⟨0, fun _ => 0, fun _ => True⟩
  | respond : Deals .respond ⟨0, fun _ => 0, fun _ => True⟩
  | release (s : Selection) : Deals (.release s) ⟨holding s, fun _ => 0, fun _ => True⟩
  | leave : Deals .leave ⟨0, fun _ => 0, fun _ => True⟩

def Clean (_ : EspErr) (held : Rights) : Prop := held = 0

def Started (i : Fin routeMax) (error : EspErr) (held : Rights) : Prop :=
  held = if error = .ok then 0 else filled i

theorem equip_started (i : Fin routeMax) : Entitled Deals (Started i) equip (filled i + server) := by
  have stops : ∀ ret : EspErr, ret ≠ .ok → Entitled Deals (Started i) (do
      invoke .httpdStop
      return ret) (filled i + server) := by
    intro ret failed
    refine Entitled.call Deals.httpdStop (filled i) fun _ _ => ?_
    show filled i + 0 = _
    rw [add_zero, if_neg failed]
  have rest : ∀ ret : EspErr, Entitled Deals (Started i) (if ret ≠ .ok then (do
      invoke .httpdStop
      return ret) else (do
      let token ← invoke .generateToken
      invoke (.publish token)
      return .ok)) (filled i + server) := by
    intro ret
    split
    · exact stops ret ‹_›
    · refine Entitled.freely Deals.generateToken fun token _ => ?_
      exact Entitled.alone (Deals.publish i token) fun _ _ => rfl
  refine Entitled.freely Deals.registerUri fun get _ => ?_
  show Entitled _ _ (if get = .ok then _ else _) _
  split
  · exact Entitled.freely Deals.registerUri fun ret _ => rest ret
  · exact rest get

theorem startServer_started (i : Fin routeMax) : Entitled Deals (Started i) startServer (filled i) := by
  refine Entitled.alone (Deals.isRunning i) fun running _ => ?_
  cases running with
  | true => rfl
  | false =>
    refine Entitled.freely Deals.admitManaged fun admitted _ => ?_
    cases admitted with
    | false => rfl
    | true =>
      have start : Entitled Deals (Started i) (do
          let ret ← invoke .httpdStart
          if ret ≠ .ok then
            return ret
          else
            equip) (filled i + 0) := by
        refine Entitled.call Deals.httpdStart (filled i) fun error _ => ?_
        show Entitled _ _ (if error ≠ .ok then _ else _) (filled i + if error = .ok then server else 0)
        by_cases ok : error = .ok
        · rw [if_neg (not_not.mpr ok), if_pos ok]
          exact equip_started i
        · rw [if_pos ok, if_neg ok, add_zero]
          exact (if_neg ok).symm
      rwa [add_zero] at start

theorem registerRoute_clean (route : Route) : Entitled Deals Clean (registerRoute route) 0 := by
  show Entitled _ _ (if !route.valid then _ else _) 0
  split
  · rfl
  · refine Entitled.alone (Deals.reserve route) fun reserved _ => ?_
    match reserved with
    | .error error => rfl
    | .ok i =>
      show Entitled _ _ (startServer >>= _) (filled i)
      refine Entitled.bind (startServer_started i) fun ret held started => ?_
      by_cases ok : ret = .ok
      · rw [if_neg (not_not.mpr ok)]
        exact started.trans (if_pos ok)
      · rw [if_pos ok, started, if_neg ok]
        exact Entitled.alone (Deals.abandon i route.owner) fun _ _ => rfl

theorem waitIdle_clean (owner : Text) (registrations : Nat) (rounds : Nat) :
    Entitled Deals Clean (waitIdle owner registrations (rounds + 1)) (marked ⟨owner, registrations, false⟩) := by
  have clears : Entitled Deals Clean (do
      invoke (.clear owner registrations)
      return .ok) (marked ⟨owner, registrations, true⟩) :=
    Entitled.alone (Deals.clear owner registrations) fun _ _ => rfl
  induction rounds with
  | zero =>
    refine Entitled.alone (Deals.isBusy owner registrations false) fun busy _ => ?_
    cases busy with
    | true => rfl
    | false => exact clears
  | succ rounds ih =>
    refine Entitled.alone (Deals.isBusy owner registrations true) fun busy _ => ?_
    cases busy with
    | true => exact ih
    | false => exact clears

theorem unregisterOwner_clean (owner : Text) : Entitled Deals Clean (unregisterOwner owner) 0 := by
  show Entitled _ _ (if !ownerValid owner then _ else _) 0
  split
  · rfl
  · refine Entitled.alone (Deals.deactivate owner) fun (found, stop, registrations) _ => ?_
    cases found with
    | false => rfl
    | true =>
      have waits := waitIdle_clean owner registrations 299
      cases stop with
      | true => exact Entitled.call Deals.httpdStop _ fun _ _ => by rwa [add_zero]
      | false =>
        show Entitled _ _ _ (marked _ + 0)
        rwa [add_zero]

theorem dispatchRequest_clean (request : Request) : Entitled Deals Clean (dispatchRequest request) 0 := by
  refine Entitled.freely Deals.arrive fun _ _ => ?_
  refine Entitled.alone (Deals.select request.method (requestPath request.uri)) fun selected _ => ?_
  match selected with
  | none => exact Entitled.freely Deals.respond fun _ _ => Entitled.freely Deals.leave fun _ _ => rfl
  | some s =>
    have finishes : ∀ ret : EspErr, Entitled Deals Clean (do
        invoke (.release s)
        invoke .leave
        return ret) (holding s) := fun ret =>
      Entitled.alone (Deals.release s) fun _ _ => Entitled.freely Deals.leave fun _ _ => rfl
    have authorized : Entitled Deals (fun _ held => held = holding s)
        (isAuthorized request s.route.auth) (holding s) := by
      show Entitled _ _ (if s.route.auth = .isPublic then _ else _) _
      split
      · rfl
      · exact Entitled.freely Deals.readToken fun _ _ => rfl
    show Entitled _ _ (isAuthorized request s.route.auth >>= _) (holding s)
    refine Entitled.bind authorized fun authorized held same => ?_
    rw [same]
    cases authorized with
    | true => exact Entitled.freely (Deals.handle s) fun ret _ => finishes ret
    | false => exact Entitled.freely Deals.respond fun ret _ => finishes ret

theorem body_clean (c : Call) : Entitled Deals Clean (body c) 0 := by
  cases c with
  | registerRoute route => exact registerRoute_clean route
  | unregisterOwner owner => exact unregisterOwner_clean owner
  | dispatchRequest request => exact dispatchRequest_clean request

end SolarOs.Http
