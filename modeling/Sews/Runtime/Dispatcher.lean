import Sews.Http.Message
import Sews.Lib.Run
import Sews.Connection.Manager
import Sews.Telemetry.Metrics

/-!
# The dispatcher

`Dispatcher::run` as a step function.  A `State` is everything the loop reads or
writes: the kernel, the channel objects, the connection manager, the metrics,
the one read buffer, and where in the loop it is (`Phase`).  The four labels are
the four things the loop does between two points where it asks the outside:

* `poll`: the top of the loop with `stopFlag` clear, up to the events `poll`
  returned;
* `event`: the handling of the next event of the batch;
* `cleanup`: what follows the `for` loop;
* `stop`: the top of the loop with `stopFlag` set, and the shutdown.

A label brings what the outside decides in that step: the reports of
`epoll_wait`, the results of the system calls, and the parser, router, handlers
and serializer, which the dispatcher knows by their interfaces only (`App`).

`trace` is a record of what was done on each connection.  The code does not read
it.
-/

namespace Sews.Runtime

open Cpp Sews.Http Sews.Connection Sews.Reactor Sews.Telemetry

/-! ### The outside -/

/-- The decoder, the router, the handlers and the encoder behind their
interfaces, at one moment of the run. -/
structure App (H : Type) where
  parse : Bytes → Except Exception (Option Message)
  route : Message → Option H
  handle : H → Message → Except Exception (Option Message)
  serialize : Message → Except Exception Bytes

/-- What the calls made while one event is handled return. -/
structure Answers (H : Type) where
  app : App H
  /-- `accept(2)` -/
  accepted : Fd := -1
  /-- the number a new channel finds in its `writeOffset` -/
  garbage : Nat := 0
  /-- whether the kernel has memory for the `epoll_ctl` call -/
  memory : Bool := true
  /-- `read(2)`: the bytes there are, or an error -/
  read : Option Bytes := none
  /-- the `write(2)` calls of `flush` -/
  writes : List WriteResult := []

/-! ### The state -/

/-- What was done on a connection. -/
inductive Act (H : Type)
  | accept (fd : Fd)
  | read (result : Option Bytes)
  | parse (raw : Bytes)
  | count
  | handle (handler : H) (message : Message)
  | queue (serialized : Bytes)
  | flush (result : Write)
  | interest (events : List EventFlag)
  | mark
  | close
  | erase
deriving DecidableEq

inductive Phase
  | top
  | batch (events : List Event)
  | returned
  | threw
deriving DecidableEq

structure State (H : Type) where
  kernel : Kernel
  objects : ChannelId → Option PlainTextChannel
  nextId : ChannelId
  manager : Manager
  metrics : Metrics
  buffer : Bytes
  bytesRead : Int
  phase : Phase
  trace : List (ChannelId × Act H)

/-- The listener's channel object. -/
def serverChannel : ChannelId := 0

/-- `std::vector<char> buffer(8192)`. -/
def bufferSize : Nat := 8192

variable {H : Type}

namespace State

/-- `channel->getFd()`. -/
def getFd (s : State H) (id : ChannelId) : Fd :=
  match s.objects id with
  | none => -1
  | some channel => channel.fd

def log (s : State H) (id : ChannelId) (act : Act H) : State H :=
  { s with trace := s.trace ++ [(id, act)] }

def setChannel (s : State H) (id : ChannelId) (channel : PlainTextChannel) : State H :=
  { s with objects := Function.update s.objects id (some channel) }

/-- `connectionManager->remove(*channel)`. -/
def mark (s : State H) (id : ChannelId) : State H :=
  { s with manager := s.manager.remove (s.getFd id) }.log id .mark

/-- `socketLoop->updateEvents(*channel, events)`. -/
def updateEvents (s : State H) (id : ChannelId) (events : List EventFlag) (memory : Bool) :
    State H :=
  { s with kernel := SocketLoop.updateEvents s.kernel (s.getFd id) events memory }.log id
    (.interest events)

/-- `metricsManager->increment(name)`. -/
def increment (s : State H) (name : Bytes) : State H :=
  { s with metrics := s.metrics.increment name }

/-- An exception leaves `run`. -/
def throw (s : State H) : State H := { s with phase := .threw }

/-- `bytesRead = channel->readRaw(buffer.data(), buffer.size())`.  The kernel
delivers at most as many bytes as it is asked for, and overwrites only as much of
the buffer. -/
def readRaw (s : State H) (id : ChannelId) (result : Option Bytes) : State H :=
  match result with
  | none => { s with bytesRead := -1 }.log id (.read none)
  | some bytes =>
    let got := bytes.take bufferSize
    { s with bytesRead := got.length, buffer := got ++ s.buffer.drop got.length }.log id
      (.read (some got))

/-- `channel.close()`. -/
def closeChannel (s : State H) (id : ChannelId) : State H :=
  match s.objects id with
  | none => s
  | some channel =>
    if 0 ≤ channel.fd then
      ({ s with kernel := s.kernel.close channel.fd }.setChannel id { channel with fd := -1 }).log id
        .close
    else s

end State

/-! ### Event handling -/

def requestsTotal : Bytes := ascii "requests_total"
def responses404 : Bytes := ascii "responses_404"
def responses500 : Bytes := ascii "responses_500"
def connectionsTotal : Bytes := ascii "connections_total"

/-- The response of the three `500` fallbacks. -/
def errorResponse : Response where
  status := 500
  statusText := ascii "Internal Error"
  version := ascii "HTTP/1.1"
  headers := Finmap.insert (ascii "Connection") (ascii "close") ∅

/-- The response when the router has no handler. -/
def notFoundResp : Response where
  status := 404
  statusText := ascii "Not Found"
  version := ascii "HTTP/1.1"
  headers := Finmap.insert (ascii "Connection") (ascii "keep-alive") ∅

namespace Dispatcher

open State

/-- The end of all five branches that answer: serialize the response, overwrite
the write buffer with it, ask for `WRITE`, and count it under `counter`. -/
def respond (s : State H) (id : ChannelId) (a : Answers H) (response : Message)
    (counter : Option Bytes) : State H :=
  match a.app.serialize response with
  | .error _ => s.throw
  | .ok serialized =>
    let s := match s.objects id with
      | none => s
      | some channel => (s.setChannel id (channel.queue serialized)).log id (.queue serialized)
    let s := s.updateEvents id [.WRITE] a.memory
    match counter with
    | none => s
    | some name => s.increment name

/-- The `READ` branch. -/
def onRead (s : State H) (id : ChannelId) (a : Answers H) : State H :=
  let s := s.readRaw id a.read
  if s.bytesRead = 0 then (s.mark id).updateEvents id [.ERROR] a.memory
  else if s.bytesRead < 0 then (s.mark id).updateEvents id [.ERROR] a.memory
  else
    let rawRequest := s.buffer.take s.bytesRead.toNat
    let s := s.log id (.parse rawRequest)
    match a.app.parse rawRequest with
    | .error _ => s.throw
    | .ok none => respond s id a (.response errorResponse) (some responses500)
    | .ok (some message) =>
      match message with
      | .request _ =>
        let handler := a.app.route message
        let s := (s.increment requestsTotal).log id .count
        match handler with
        | none => respond s id a (.response notFoundResp) (some responses404)
        | some handler =>
          let s := s.log id (.handle handler message)
          match a.app.handle handler message with
          | .error _ => s.throw
          | .ok none => respond s id a (.response errorResponse) (some responses500)
          | .ok (some response) => respond s id a response none
      -- the `dynamic_cast` to a request fails
      | _ => respond s id a (.response errorResponse) (some responses500)

/-- The `WRITE` branch. -/
def onWrite (s : State H) (id : ChannelId) (a : Answers H) : Option (State H) :=
  match s.objects id with
  | none => none
  | some channel =>
    match channel.flush a.writes with
    | none => none
    | some (result, channel', bytes) =>
      let s := { s with kernel := s.kernel.write channel.fd bytes }
      let s := (s.setChannel id channel').log id (.flush result)
      match result with
      | .DONE => some (s.updateEvents id [.READ] a.memory)
      | .WOULDBLOCK => some (s.updateEvents id [.WRITE] a.memory)
      | .FAILED => some ((s.mark id).updateEvents id [.ERROR] a.memory)

/-- The branch for the listener.  A channel that stood in the table under the
new descriptor is destroyed, which closes it. -/
def onAccept (s : State H) (a : Answers H) : State H :=
  if a.accepted < 0 then s
  else
    let fd := a.accepted
    let id := s.nextId
    let s := { s with kernel := s.kernel.accept fd id, nextId := id + 1 }
    let s := (s.setChannel id { fd := fd, writeOffset := a.garbage }).log id (.accept fd)
    let s := { s with kernel := SocketLoop.registerChannel s.kernel fd a.memory }
    let displaced := s.manager.channels.lookup fd
    let s := { s with manager := s.manager.add fd id }
    let s := match displaced with
      | none => s
      | some old => s.closeChannel old
    s.increment connectionsTotal

/-- The body of the `for` loop. -/
def handleEvent (s : State H) (event : Event) (a : Answers H) : Option (State H) :=
  if s.getFd event.channel = s.getFd serverChannel then some (onAccept s a)
  else match event.flag with
    | .HANGUP => some (s.mark event.channel)
    | .ERROR => some (s.mark event.channel)
    | .READ => some (onRead s event.channel a)
    | .WRITE => onWrite s event.channel a

/-! ### Cleanup and shutdown -/

/-- `socketLoop->unregisterChannel(fd)`. -/
def unregister (s : State H) (fd : Fd) (granted : Bool) : State H :=
  { s with kernel := SocketLoop.unregisterChannel s.kernel fd granted }

/-- The callback of `forEachClosed`. -/
def unregisterClosed (s : State H) (fd : Fd) (granted : Bool) : State H :=
  let s := unregister s fd granted
  { s with metrics := s.metrics.decrement connectionsTotal }

/-- One round of `connectionManager->clear()`: erasing the entry destroys a
channel that is closed already. -/
def clearOne (s : State H) (fd : Fd) : State H :=
  match s.manager.channels.lookup fd with
  | none => s
  | some id =>
    let s := s.closeChannel id
    { s with manager := { s.manager with channels := s.manager.channels.erase fd } }.log id .erase

/-- `connectionManager->clear()`. -/
def clear (s : State H) : State H :=
  let s := s.manager.closedChannels.foldl clearOne s
  { s with manager := { s.manager with closedChannels := [] } }

/-- What follows the `for` loop.  `granted i` is the result of the `i`-th
`EPOLL_CTL_DEL`. -/
def cleanup (s : State H) (granted : Nat → Bool) : State H :=
  let s := s.manager.closedChannels.zipIdx.foldl
    (fun s entry => unregisterClosed s entry.1 (granted entry.2)) s
  { clear s with bytesRead := 0, phase := .top }

/-- What follows the `while` loop. -/
def shutdown (s : State H) (order : List (Σ _ : Fd, ChannelId)) (granted : Nat → Bool) :
    State H :=
  let s := order.zipIdx.foldl
    (fun s entry => unregister s (s.getFd entry.1.2) (granted entry.2)) s
  let s := unregister s (s.getFd serverChannel) (granted order.length)
  { (clear s).closeChannel serverChannel with phase := .returned }

/-! ### The loop -/

inductive Label (H : Type)
  | poll (order : List (Σ _ : Fd, ChannelId)) (ready : List EpollEvent)
  | event (a : Answers H)
  | cleanup (granted : Nat → Bool)
  | stop (order : List (Σ _ : Fd, ChannelId)) (granted : Nat → Bool)

/-- One step of `run`.  `order` is the order in which `forEach` visits the
manager's table. -/
def step (s : State H) : Label H → Option (State H)
  | .poll order ready =>
    if s.phase = .top ∧ UnorderedMap.Enumerates order s.manager.channels then
      let watched := serverChannel :: order.map (·.2)
      some { s with phase := .batch (SocketLoop.poll s.getFd watched ready) }
    else none
  | .event a =>
    match s.phase with
    | .batch (event :: events) => handleEvent { s with phase := .batch events } event a
    | _ => none
  | .cleanup granted =>
    match s.phase with
    | .batch [] => some (cleanup s granted)
    | _ => none
  | .stop order granted =>
    if s.phase = .top ∧ UnorderedMap.Enumerates order s.manager.channels then
      some (shutdown s order granted)
    else none

/-- The metrics the constructor registers. -/
def registerMetrics (metrics : Metrics) : Metrics :=
  (((metrics.registerMetric requestsTotal .COUNTER).registerMetric responses404 .COUNTER).registerMetric
    responses500 .COUNTER).registerMetric connectionsTotal .GAUGE

/-- The state before the first round of the loop: the listener is open (`main`
returns on a negative descriptor), and registered if the kernel had memory for
that. -/
def initial (listenFd : Fd) (memory : Bool) (metrics : Metrics) : State H where
  kernel := SocketLoop.registerChannel
    { files := Function.update (fun _ => none) listenFd (some serverChannel)
      interest := fun _ => none
      sent := fun _ => [] } listenFd memory
  objects := Function.update (fun _ => none) serverChannel (some { fd := listenFd, writeOffset := 0 })
  nextId := 1
  manager := {}
  metrics := registerMetrics metrics
  buffer := List.replicate bufferSize nul
  bytesRead := 0
  phase := .top
  trace := []

theorem lookup_initial (listenFd : Fd) (memory : Bool) (metrics : Metrics) (fd : Fd) :
    (initial listenFd memory metrics : State H).manager.channels.lookup fd = none := Finmap.lookup_empty fd

theorem files_initial (listenFd : Fd) (memory : Bool) (metrics : Metrics) :
    (initial listenFd memory metrics : State H).kernel.files
      = Function.update (fun _ => none) listenFd (some serverChannel) := by
  simp [initial, SocketLoop.registerChannel]

theorem sent_initial (listenFd : Fd) (memory : Bool) (metrics : Metrics) :
    (initial listenFd memory metrics : State H).kernel.sent = fun _ => [] := by
  simp [initial, SocketLoop.registerChannel]

theorem objects_initial {listenFd : Fd} {memory : Bool} {metrics : Metrics} {id : ChannelId}
    (h : id ≠ serverChannel) : (initial listenFd memory metrics : State H).objects id = none := by
  show Function.update (fun _ => none) serverChannel _ id = none
  rw [Function.update_of_ne h]

end Dispatcher
end Sews.Runtime
