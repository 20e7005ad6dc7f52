import Outband.Foundation.Decimal
import Outband.Httpapi.Login
import Outband.Inventory.Features
import Outband.Kvm.Bridge
import Outband.Server.Questions

/-!
# The pages of a host

The handlers of the routes of a host (`internal/httpapi/server.go`) as dialogues with the client
of the host, its KVM bridge, the telemetry store, and the connection to the browser.
`requireFeature` stands in front of all but the dashboard. What a handler opens (a slot of the
bridge, a SOL session, a WebSocket) it closes on every way out.

## Implementation notes

The data that every page has in common (titles and links) are left out, and so is the pause after
a power action. `lower` is `unicode.ToLower`.
-/

namespace Outband.Httpapi

open Foundation
open Bmc (Feature MCInfo PowerStatus Sensor)
open Bmc.EventLog (SELEntry)
open Inventory (Host Registry ToLower)
open Server (Ask Answer Meta Talk ask)
open Telemetry (Sample contains)

variable {V C : Type}

/-! ### Replies -/

inductive PageData
  | skeleton
  | dashboard (Info : Option MCInfo) (Power : Option PowerStatus) (Temps Fans : List Sensor)
      (ErrMsg : String) (Warming : Bool)
  | power (Power : Option PowerStatus) (ErrMsg Result : String) (Warming : Bool)
  | sensors (Sensors : List Sensor) (ErrMsg : String) (Warming : Bool)
  | sel (Entries : List SELEntry) (ErrMsg : String) (Warming : Bool)
  | metrics (Sensors : List String) (Range : String) (Selected : List String)
  | kvm (Status Backend : String) (Port : Int) (TLS : Bool) (WSPath : String)
  | console (WSURL : String)
  deriving DecidableEq

structure Series (V : Type) where
  Sensor : String
  Kind : String
  Unit : String
  Points : List (Sample V)
  deriving DecidableEq, Repr

/-- What becomes of a request for a page; `socket` says that the connection was taken over. -/
inductive PageReply (V : Type)
  | error (text : String) (code : Nat)
  | page (name : String) (data : PageData)
  | json (From To : Int) (series : List (Series V)) (health : Meta)
  | socket

/-! ### The handlers -/

def requireFeature (h : Host C) (f : Feature) (label : String) (rest : Talk V (PageReply V)) :
    Talk V (PageReply V) := do
  let a ← ask .Features
  if (h.Features a.capabilities).Has f then rest
  else return .error (label ++ " not supported by this BMC") 501

/-- A page that shows the latest snapshot of one kind, once the store has any. -/
def showLatest (name : String) (latest : Ask) (data : String → Bool → Answer V → PageData) :
    Talk V (PageReply V) := do
  let health := (← ask .Meta).health
  if health.Warm then
    let a ← ask latest
    return .page name (data health.LastError false a)
  else return .page name (data health.LastError true {})

def handleDashboard : Talk V (PageReply V) := return .page "dashboard.html" .skeleton

/-- The sensors of a type that are there and fine, six at most. -/
def shownSensors (lower : Char → Char) (typ : String) (sensors : List Sensor) : List Sensor :=
  (sensors.filter fun sn =>
    contains (ToLower lower sn.Typ) typ ∧ sn.Present = true ∧ sn.Status = "ok").take 6

def handleDashboardPartial (lower : Char → Char) : Talk V (PageReply V) := do
  let health := (← ask .Meta).health
  if health.Warm then
    let info ← ask .LatestMCInfo
    let power ← ask .LatestPower
    let sensors := (← ask .LatestSensors).sensors
    return .page "partials/dashboard.html" (.dashboard info.info power.latest
      (shownSensors lower "temperature" sensors) (shownSensors lower "fan" sensors)
      health.LastError false)
  else
    return .page "partials/dashboard.html" (.dashboard none none [] [] health.LastError true)

def handlePower (h : Host C) : Talk V (PageReply V) :=
  requireFeature h .Power "Power" <| showLatest "power.html" .LatestPower
    fun err warming a => .power a.latest err "" warming

def handlePowerPartial (h : Host C) : Talk V (PageReply V) :=
  requireFeature h .Power "Power" <| showLatest "partials/power_status.html" .LatestPower
    fun err warming a => .power a.latest err "" warming

def powerAction (action : String) : Talk V (PageReply V) := do
  let controlled ← ask (.PowerControl action)
  let ErrMsg := (controlled.err.map fun err => err.text).getD ""
  let Result := if controlled.err = none then "Issued power " ++ action else ""
  let read ← ask .PowerStatus
  match read.err with
  | some err =>
      return .page "partials/power_panel.html"
        (.power none (if ErrMsg = "" then err.text else ErrMsg) Result false)
  | none =>
      let _ ← ask (.RecordPower read.status)
      return .page "partials/power_panel.html" (.power (some read.status) ErrMsg Result false)

def handlePowerAction (h : Host C) (r : LoginRequest) : Talk V (PageReply V) :=
  requireFeature h .Power "Power" <|
    match r.form with
    | none => return .error "bad form" 400
    | some form => powerAction (firstValue form "action")

def handleSensors (h : Host C) : Talk V (PageReply V) :=
  requireFeature h .Sensors "Sensors" <| showLatest "sensors.html" .LatestSensors
    fun err warming a => .sensors a.sensors err warming

def handleSensorsPartial (h : Host C) : Talk V (PageReply V) :=
  requireFeature h .Sensors "Sensors" <| showLatest "partials/sensors.html" .LatestSensors
    fun err warming a => .sensors a.sensors err warming

def handleSEL (h : Host C) : Talk V (PageReply V) :=
  requireFeature h .SEL "SEL" <| showLatest "sel.html" .LatestSEL
    fun err warming a => .sel a.entries err warming

def handleSELPartial (h : Host C) : Talk V (PageReply V) :=
  requireFeature h .SEL "SEL" <| showLatest "partials/sel.html" .LatestSEL
    fun err warming a => .sel a.entries err warming

/-! ### Metrics -/

/-- The window that ends at `now`, an hour long unless the range is another one. -/
def rangeWindow (now : Int) (rng : String) : Int × Int :=
  (now - (if rng = "15m" then 15 * 60
    else if rng = "6h" then 6 * 3600
    else if rng = "24h" then 24 * 3600
    else 3600), now)

/-- A name that a chart is shown for by default. -/
def preferred (lower : Char → Char) (n : String) : Bool :=
  let low := ToLower lower n
  ["temp", "cpu", "fan", "inlet", "ambient", "dimm", "sys."].any (contains low)

/-- The `add` of `defaultMetricSensors`. -/
def addName (out : List String) (n : String) : List String := if n ∈ out then out else out ++ [n]

/-- The first loop of `defaultMetricSensors`, which may return. -/
def addPreferred (lower : Char → Char) (out : List String) : List String → List String ⊕ List String
  | [] => .inr out
  | n :: rest =>
      let out := if preferred lower n then addName out n else out
      if 8 ≤ out.length then .inl out else addPreferred lower out rest

/-- The second loop of `defaultMetricSensors`. -/
def addFirst (out : List String) : List String → List String
  | [] => out
  | n :: rest =>
      let out := addName out n
      if 6 ≤ out.length then out else addFirst out rest

def defaultMetricSensors (lower : Char → Char) (names : List String) : List String :=
  match addPreferred lower [] names with
  | .inl out => out
  | .inr out => addFirst out names

/-- All the values of a key, in order. -/
def allValues (values : List (String × String)) (key : String) : List String :=
  (values.filter fun v => v.1 = key).map Prod.snd

/-- The parameter `range`. -/
def rangeOf (r : LoginRequest) : String :=
  if firstValue r.query "range" = "" then "1h" else firstValue r.query "range"

def handleMetrics (lower : Char → Char) (h : Host C) (r : LoginRequest) : Talk V (PageReply V) :=
  requireFeature h .Sensors "Metrics" do
    let window := rangeWindow (← ask .Now).now (rangeOf r)
    let names := (← ask (.ListSensorNames window.1 window.2)).names
    let selected := allValues r.query "sensor"
    let selected := if selected = [] then defaultMetricSensors lower names else selected
    return .page "metrics.html" (.metrics names (rangeOf r) selected)

/-- `strconv.ParseInt` to the base of ten, with 64 bits. -/
def ParseInt (text : String) : Option Int :=
  let signed := match text.toList with
    | '+' :: digits => (digits, 1)
    | '-' :: digits => (digits, -1)
    | digits => (digits, 1)
  if signed.1 = [] then none
  else
    match number signed.1 with
    | some n =>
        let n := signed.2 * (n : Int)
        if -2 ^ 63 ≤ n ∧ n < 2 ^ 63 then some n else none
    | none => none

/-- The parameter, where it is an integer. -/
def bound (r : LoginRequest) (key : String) (default : Int) : Int :=
  (ParseInt (firstValue r.query key)).getD default

/-- The series that are asked for, up to the first error. -/
def readSeries (first last : Int) : List String → Talk V (Except String (List (Series V)))
  | [] => return .ok []
  | name :: rest => do
      let a ← ask (.QuerySamples name first last)
      match a.err with
      | some err => return .error err.text
      | none =>
          let series : Series V :=
            { Sensor := name
              Kind := (a.points.head?.map fun p => p.Kind).getD ""
              Unit := (a.points.head?.map fun p => p.Unit).getD ""
              Points := a.points }
          match ← readSeries first last rest with
          | .error err => return .error err
          | .ok more => return .ok (series :: more)

/-- The sensors that a request names, or those of the default. -/
def seriesNames (lower : Char → Char) (r : LoginRequest) (first last : Int) :
    Talk V (List String) := do
  let sensors := allValues r.query "sensor"
  if sensors = [] then
    let a ← ask (.ListSensorNames first last)
    return defaultMetricSensors lower a.names
  else return sensors

def handleAPIMetrics (lower : Char → Char) (h : Host C) (r : LoginRequest) :
    Talk V (PageReply V) :=
  requireFeature h .Sensors "Metrics" do
    let window := rangeWindow (← ask .Now).now (rangeOf r)
    let first := bound r "from" window.1
    let last := bound r "to" window.2
    let health := (← ask .Meta).health
    let sensors ← seriesNames lower r first last
    match ← readSeries first last sensors with
    | .error err => return .error err 500
    | .ok series => return .json first last series health

/-! ### KVM and console -/

/-- The back end of the bridge that `New` builds for the host. -/
def kvms (h : Host C) : Option Kvm.Backend :=
  if h.hasAMTKVM then some .amt
  else if h.hasAMIKVM then some .ami
  else if h.hasILOKVM then some .ilo
  else none

def backendName : Option Kvm.Backend → String
  | some .amt => "Intel AMT Hardware-KVM"
  | some .ami => "AMI Adviser/IVTP"
  | some .ilo => "HPE iLO IRC"
  | none => "KVM"

def bridgeStatus (h : Host C) : Talk V String := do
  if kvms h = none then return "unavailable"
  else return (← ask .Status).text

def handleKVM (h : Host C) : Talk V (PageReply V) :=
  requireFeature h .KVM "KVM" do
    let status ← bridgeStatus h
    return .page "kvm.html" (.kvm status (backendName (kvms h)) h.kvmPort h.kvmTLS
      ("h/" ++ h.ID ++ "/ws/kvm"))

def handleKVMWS (h : Host C) : Talk V (PageReply V) :=
  requireFeature h .KVM "KVM" do
    if kvms h = none then return .error "KVM not supported by this BMC" 501
    let acquired ← ask .Acquire
    match acquired.err with
    | some err =>
        if err.busy then return .error "KVM session busy" 409
        else return .error ("KVM connect failed: " ++ err.text) 502
    | none =>
        let upgraded ← ask .Upgrade
        if upgraded.err ≠ none then
          let _ ← ask .Release
          return .socket
        let _ ← ask .Serve
        let _ ← ask .CloseSocket
        let _ ← ask .Release
        return .socket

def displayHost (h : Host C) : String :=
  if h.Name ≠ "" ∧ h.Name ≠ h.Address then h.Name ++ " (" ++ h.Address ++ ")"
  else if h.Address ≠ "" then h.Address
  else h.ID

def handleConsole (h : Host C) : Talk V (PageReply V) :=
  requireFeature h .Console "Console" <|
    return .page "console.html" (.console ("/h/" ++ h.ID ++ "/ws/sol"))

/-- A line of the server's own in the terminal. -/
def banner (msg : String) : String := "\r\n*** " ++ msg ++ " ***\r\n"

def handleSOLWS (h : Host C) : Talk V (PageReply V) :=
  requireFeature h .Console "Console" do
    if (← ask .AsConsole).console = false then
      return .error "Console not supported by this BMC" 501
    let upgraded ← ask .Upgrade
    if upgraded.err ≠ none then return .socket
    let opened ← ask .OpenSOL
    match opened.err with
    | some err =>
        let msg := if err.busy then "SOL session busy" else "SOL unavailable: " ++ err.text
        let _ ← ask (.WriteMessage (banner msg))
        let _ ← ask .CloseSocket
        return .socket
    | none =>
        let hello := "Outband SOL connected to " ++ displayHost h ++ " (serial, not KVM)"
        let _ ← ask (.WriteMessage (banner hello))
        let _ ← ask .Proxy
        let _ ← ask .CloseSOL
        let _ ← ask .CloseSocket
        return .socket

/-- The page of a host behind a route. -/
def pageOf (lower : Char → Char) (h : Host C) (r : LoginRequest) :
    HandlerName → Option (Talk V (PageReply V))
  | .handleDashboard => some handleDashboard
  | .handleDashboardPartial => some (handleDashboardPartial lower)
  | .handlePower => some (handlePower h)
  | .handlePowerPartial => some (handlePowerPartial h)
  | .handlePowerAction => some (handlePowerAction h r)
  | .handleSensors => some (handleSensors h)
  | .handleSensorsPartial => some (handleSensorsPartial h)
  | .handleSEL => some (handleSEL h)
  | .handleSELPartial => some (handleSELPartial h)
  | .handleMetrics => some (handleMetrics lower h r)
  | .handleAPIMetrics => some (handleAPIMetrics lower h r)
  | .handleConsole => some (handleConsole h)
  | .handleSOLWS => some (handleSOLWS h)
  | .handleKVM => some (handleKVM h)
  | .handleKVMWS => some (handleKVMWS h)
  | .StaticHandler | .handleLoginGet | .handleLoginPost | .handleLogout | .handleOIDCLogin
  | .handleOIDCCallback | .redirectDefault _ => none

/-- The handler begins with `resolveHost`. -/
def HandlerName.resolves : HandlerName → Bool
  | .StaticHandler | .handleLoginGet | .handleLoginPost | .handleLogout | .handleOIDCLogin
  | .handleOIDCCallback | .redirectDefault _ => false
  | _ => true

/-- `resolveHost` and the page behind it. -/
def handlePage (registry : Registry C) (lower : Char → Char) (hostID : String) (r : LoginRequest)
    (handler : HandlerName) : Option (Talk V (PageReply V)) :=
  match registry.byID hostID with
  | some h => pageOf lower h r handler
  | none => if handler.resolves then some (return .error "404 page not found" 404) else none

end Outband.Httpapi
