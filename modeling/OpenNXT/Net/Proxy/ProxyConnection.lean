import OpenNXT.Net.GameStream

/-! Two connections of the proxy and the tick that relays between them. The event loops of the two
channels frame what arrives and encode what is written; the tick thread polls the queues. -/
namespace OpenNXT.Net.Proxy
open Buffer Util Decoding
open GamePacketFraming (Reading decoder fresh)

/-- A packet of the queue: of a class that is registered, or unidentified. -/
inductive QueuedPacket (P : Type)
  | unidentified (packet : OpcodeWithBuffer)
  | decoded (packet : P)

/-- `none` is an exception of the codec. -/
structure ProxyRegistration (P : Type) where
  name : String
  opcode : Word
  decode : List Byte → Option P
  encode : P → Option (List Byte)

/-- What the proxy is configured with. No bootstrap stage is ever set in it. -/
structure ProxyRuntime (P : Type) where
  protocol : Protocol
  build : Word
  byOpcode : Side → Word → Option (ProxyRegistration P)
  byClass : Side → P → Option (ProxyRegistration P)
  /-- What the handlers of the player write to the client for a packet. -/
  handlePacket : P → List P

/-- A message for a channel, and whether it comes from the other end of the pair. -/
structure ProxyWrite where
  message : OpcodeWithBuffer
  relayed : Bool

/-- What the other threads leave to the event loop of a channel. -/
inductive ChannelTask
  | write (w : ProxyWrite)
  | flush

/-- One end of the pair, with its channel. -/
structure ConnectedProxyClient (P : Type) where
  reading : Reading
  isaac : ISAACCipher
  initedPlayerList : Bool := false
  incomingQueue : List (QueuedPacket P) := []
  ready : Bool := false
  isOpen : Bool := true
  tasks : List ChannelTask := []
  /-- Encoded and not flushed. -/
  outbound : List Byte := []
  wire : List Byte := []

def otherSide : Side → Side
  | .client => .server
  | .server => .client

/-- Where the tick thread is in the pass over a pair. -/
inductive TickPhase
  | idle
  | entering (side : Side)
  | polling (side : Side)
  | flushing

def TickPhase.after : Side → TickPhase
  | .client => .entering .server
  | .server => .flushing

structure ProxyPair (P : Type) where
  ends : Side → ConnectedProxyClient P
  phase : TickPhase := .idle
  removed : Bool := false

inductive ProxyEvent
  | read (side : Side) (chunk : List Byte)
  | ready (side : Side)
  | close (side : Side)
  /-- The event loop of a channel takes its next task. -/
  | task (side : Side)
  /-- The tick thread goes on. -/
  | tick

namespace ProxyRuntime
variable {P : Type} (r : ProxyRuntime P)

def endpoint (side : Side) : Endpoint where
  protocol := r.protocol
  channel := { side := side, connectedClient := some {} }
  build := r.build

/-- What `write` puts on the channel of a side. -/
def writtenAs (side : Side) : QueuedPacket P → Option OpcodeWithBuffer
  | .unidentified packet => some packet
  | .decoded packet => do
    let registration ← r.byClass (otherSide side) packet
    let payload ← registration.encode packet
    return { opcode := registration.opcode, buf := { written := payload } }

/-- What `receive` adds to the queue, and whether the list of players is inited then. -/
def receive (side : Side) (inited : Bool) (pair : OpcodeWithBuffer) :
    Option (QueuedPacket P) × Bool :=
  let copy := .unidentified { opcode := pair.opcode, buf := { written := pair.buf.readable } }
  match r.byOpcode side pair.opcode with
  | none => (some copy, inited)
  | some registration =>
    if registration.name = "REBUILD_NORMAL" && !inited then (some copy, true)
    else ((registration.decode pair.buf.readable).map .decoded, inited)

def receiveAll (side : Side) : Bool → List OpcodeWithBuffer → List (QueuedPacket P) × Bool
  | inited, [] => ([], inited)
  | inited, pair :: pairs =>
    let first := r.receive side inited pair
    let rest := receiveAll side first.2 pairs
    (first.1.toList ++ rest.1, rest.2)

end ProxyRuntime

namespace ConnectedProxyClient
variable {P : Type} (r : ProxyRuntime P) (side : Side) (c : ConnectedProxyClient P)

def close : ConnectedProxyClient P := { c with isOpen := false, outbound := [] }

def flush : ConnectedProxyClient P :=
  if c.ready then { c with tasks := c.tasks ++ [.flush] } else c

/-- A chunk goes through the framing, and its packets to the queue. -/
def read (chunk : List Byte) : ConnectedProxyClient P :=
  let d := (decoder (r.endpoint side)).channelRead { c.reading with out := [] } chunk
  let queued := r.receiveAll side c.initedPlayerList d.out
  let c := { c with
    reading := d
    initedPlayerList := queued.2
    incomingQueue := c.incomingQueue ++ queued.1 }
  if d.state.closed then c.close else c

def write (relayed : Bool) (packet : QueuedPacket P) : ConnectedProxyClient P :=
  match r.writtenAs side packet with
  | none => c
  | some message => { c with tasks := c.tasks ++ [.write { message, relayed }] }

/-- A closed channel writes nothing; the encoder closes it where it does not accept a message. -/
def runTask : ChannelTask → ConnectedProxyClient P
  | .flush => if c.isOpen then { c with wire := c.wire ++ c.outbound, outbound := [] } else c
  | .write w =>
    if c.isOpen then
      match GamePacketEncoder.encode (r.endpoint side) c.isaac w.message with
      | some (bytes, isaac) => { c with isaac := isaac, outbound := c.outbound ++ bytes }
      | none => c.close
    else c

end ConnectedProxyClient

namespace ProxyPair
variable {P : Type} (r : ProxyRuntime P) (s : ProxyPair P)

def update (side : Side) (f : ConnectedProxyClient P → ConnectedProxyClient P) : ProxyPair P :=
  { s with ends := fun d => if d = side then f (s.ends d) else s.ends d }

def isAlive : Bool := (s.ends .client).isOpen && (s.ends .server).isOpen

def disconnect : ProxyPair P :=
  (s.update .client ConnectedProxyClient.close).update .server ConnectedProxyClient.close

def bothReady : Bool := (s.ends .client).ready && (s.ends .server).ready

/-- A packet that was polled: the handlers answer the client, then it goes to the other end. -/
def relay (side : Side) (packet : QueuedPacket P) : ProxyPair P :=
  let answers := match packet with
    | .unidentified _ => []
    | .decoded packet => r.handlePacket packet
  let s := s.update .client fun c =>
    answers.foldl (fun c answer => c.write r .client false (.decoded answer)) c
  s.update (otherSide side) fun c => c.write r (otherSide side) true packet

/-- One step of the tick thread; a pair that is not alive has its last pass. -/
def tick : Option (ProxyPair P) :=
  match s.phase with
  | .idle =>
    if s.removed then none
    else if s.isAlive then some { s with phase := .entering .client }
    else some { s.disconnect with phase := .entering .client, removed := true }
  | .entering side =>
    some { s with phase := if s.bothReady then .polling side else .after side }
  | .polling side =>
    match (s.ends side).incomingQueue with
    | [] => some { s with phase := .after side }
    | packet :: rest =>
      some ((s.update side fun c => { c with incomingQueue := rest }).relay r side packet)
  | .flushing =>
    some { (s.update .client ConnectedProxyClient.flush).update .server ConnectedProxyClient.flush with
      phase := .idle }

/-- The pair after an event; `none` where it cannot happen. -/
def step : ProxyEvent → Option (ProxyPair P)
  | .read side chunk =>
    if (s.ends side).isOpen then some (s.update side fun c => c.read r side chunk) else none
  | .ready side => some (s.update side fun c => { c with ready := true })
  | .close side => some (s.update side ConnectedProxyClient.close)
  | .task side =>
    match (s.ends side).tasks with
    | [] => none
    | task :: rest =>
      some (s.update side fun c => { c with tasks := rest }.runTask r side task)
  | .tick => s.tick r

def run (s : ProxyPair P) : List ProxyEvent → Option (ProxyPair P)
  | [] => some s
  | e :: es => (s.step r e).bind fun t => run t es

/-- The pair when both pipelines have been switched to the game protocol. -/
def start (incoming outgoing : Side → ISAACCipher) : ProxyPair P where
  ends side := { reading := fresh (incoming side), isaac := outgoing side }

end ProxyPair

end OpenNXT.Net.Proxy
