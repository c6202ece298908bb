import Mathlib
import Pantheon.Lib.Bytes
import Pantheon.Lib.Frames
import Pantheon.Lib.Utf8
import Pantheon.Keystone.Flux
import Pantheon.Wire.Hpack
import Pantheon.Wire.Http2
import Pantheon.Wire.Proto

/-!
# A connection of the Flux gRPC endpoint: `wire/grpc/mod.rs`

One loop takes the frames of the peer and the records of the broadcast as they come.  Messages
wait on their stream until both windows have room for all of them.
-/

set_option autoImplicit false

namespace Pantheon.Wire.Grpc

open Pantheon.Lib Pantheon.Keystone Pantheon.Wire.Http2
open Pantheon.Wire.Proto (Fault)

def defaultInitialWindow : Nat := 65535

def grpcOk : Nat := 0
def grpcUnimplemented : Nat := 12
def grpcInternal : Nat := 13
def grpcUnauthenticated : Nat := 16

/-! ## Dispatch -/

/-- What the endpoint uses of the database and its roles. -/
structure Services (Db : Type) where
  authenticateBasic : Db → Option String → Except String Unit
  fluxPublish : Db → String → Option Nat → Option Bytes → Bytes → Except String (Nat × Nat) × Db
  fluxPoll : Db → String → Nat → String → Nat → Except String (List FluxRecord)
  fluxNumPartitions : Db → String → Option Nat
  createTopic : Db → String → Nat → Except String Unit × Db

inductive DispatchResult where
  | unary (headers : List Hpack.Header) (msg : Option Bytes) (trailers : Nat × String)
  | subscribe (topic : String)
  | error (status : Nat) (msg : String)

def encodeGrpcMessage (payload : Bytes) : Bytes := 0 :: (beBytes 4 payload.length ++ payload)

def decodeFirstGrpcMessage : Bytes → Except String Bytes
  | compressed :: data =>
      if data.length < 4 then .error "grpc: request body too short for a message"
      else if compressed ≠ 0 then .error "grpc: compressed messages are not supported"
      else
        let len := ofBe (data.take 4)
        if len ≤ (data.drop 4).length then .ok ((data.drop 4).take len)
        else .error "grpc: message length exceeds body"
  | [] => .error "grpc: request body too short for a message"

def bodyFor (body : Bytes) : Bytes :=
  match decodeFirstGrpcMessage body with
  | .ok message => message
  | .error _ => []

def recordOf (topic : String) (record : FluxRecord) : Proto.Record :=
  ⟨record.offset, record.key.getD [], record.value, record.timestampMs, topic⟩

section Dispatch

variable {Db : Type} (services : Services Db)

/-- A request that does not decode is answered with the error; a panic has no answer. -/
def decoded {Request : Type} (db : Db) (request : Except Fault Request)
    (answer : Request → DispatchResult × Db) : Option (DispatchResult × Db) :=
  match request with
  | .ok request => some (answer request)
  | .error (.error text) => some (.error grpcInternal text, db)
  | .error .panic => none

def dispatch (db : Db) (path : String) (body : Bytes) : Option (DispatchResult × Db) :=
  if path = "/flux.Flux/Publish" then
    decoded db (Proto.PublishRequest.decode (bodyFor body)) fun req =>
      match services.fluxPublish db req.topic (if req.hasPartition then some req.partition else none)
          (some req.key) req.value with
      | (.ok (partition, offset), db) =>
          (.unary [] (some (Proto.PublishResponse.encode ⟨partition, offset⟩)) (grpcOk, ""), db)
      | (.error text, db) => (.error grpcInternal text, db)
  else if path = "/flux.Flux/Poll" then
    decoded db (Proto.PollRequest.decode (bodyFor body)) fun req =>
      match services.fluxPoll db req.topic req.partition req.group req.max with
      | .ok records =>
          (.unary [] (some (Proto.PollResponse.encode ⟨records.map (recordOf req.topic)⟩))
            (grpcOk, ""), db)
      | .error text => (.error grpcInternal text, db)
  else if path = "/flux.Flux/Subscribe" then
    decoded db (Proto.SubscribeRequest.decode (bodyFor body)) fun req =>
      if req.topic = "" then (.error grpcInternal "subscribe topic must not be empty", db)
      else (.subscribe req.topic, db)
  else if path = "/flux.Flux/CreateTopic" then
    decoded db (Proto.CreateTopicRequest.decode (bodyFor body)) fun req =>
      if req.name = "" then (.error grpcInternal "topic name must not be empty", db)
      else
        let created :=
          if services.fluxNumPartitions db req.name = none then services.createTopic db req.name 1
          else (.ok (), db)
        match created with
        | (.ok _, db) => (.unary [] (some Proto.createTopicResponse) (grpcOk, ""), db)
        | (.error text, db) => (.error grpcInternal text, db)
  else some (.error grpcUnimplemented ("unknown method: " ++ path), db)

end Dispatch

/-! ## The connection -/

/-- The last five fields are what has happened: how many frames had been written when the stream
was opened, the messages put on its queue since then, the window updates that came for it, the
most that the peer ever allowed on it (its initial window and the updates), and whether another
block of headers came on the open stream, which sets the window anew. -/
structure Stream where
  path : Option String
  headers : List Hpack.Header
  body : Bytes
  reqEnded : Bool
  sendWindow : Int
  outbound : List Bytes
  pendingTrailers : Option (Nat × String)
  subscribedTopic : Option String
  openedAt : Nat
  queued : List Bytes
  updates : Nat
  granted : Nat
  reopened : Bool

/-- `written` are the frames that have been given to `write_frame` and have gone out.  An error or
a panic ends the session.  The windows are `i64`. -/
structure Conn (Db : Type) where
  db : Db
  written : List Frame
  ended : Bool
  hpack : Hpack.Decoder
  peerSettingsAcked : Bool
  pendingHeaders : Option Bytes
  connSendWindow : Int
  peerInitialWindow : Nat
  streams : UInt32 → Option Stream

/-- The frames are those that `read_frame` has returned.  `select!` drops a frame that is half read
when a record of the broadcast comes first, so these need not be the frames that the peer meant. -/
inductive Event where
  | frame (frame : Frame)
  /-- A record of the broadcast, and the streams in the order of the hash map. -/
  | flux (topic : String) (record : FluxRecord) (order : List (UInt32))

def Stream.new (openedAt : Nat) : Stream where
  path := none
  headers := []
  body := []
  reqEnded := false
  sendWindow := defaultInitialWindow
  outbound := []
  pendingTrailers := none
  subscribedTopic := none
  openedAt := openedAt
  queued := []
  updates := 0
  granted := 0
  reopened := false

namespace Conn

variable {Db : Type}

def new (db : Db) : Conn Db where
  db := db
  written :=
    [⟨frameSettings, 0, 0, encodeSettings [(settingsInitialWindowSize, defaultInitialWindow)]⟩]
  ended := false
  hpack := .new
  peerSettingsAcked := false
  pendingHeaders := none
  connSendWindow := defaultInitialWindow
  peerInitialWindow := defaultInitialWindow
  streams := fun _ => none

def stop (conn : Conn Db) : Conn Db := { conn with ended := true }

def setStream (conn : Conn Db) (id : UInt32) (stream : Option Stream) : Conn Db :=
  { conn with streams := Function.update conn.streams id stream }

def write (conn : Conn Db) (frame : Frame) : Conn Db :=
  if conn.ended then conn
  else if 0xffffff < frame.payload.length then conn.stop
  else { conn with written := conn.written ++ [frame] }

def sendWindowUpdate (conn : Conn Db) (id : UInt32) (delta : Nat) : Conn Db :=
  conn.write ⟨frameWindowUpdate, 0, id, beBytes 4 delta⟩

def sendResponseHead (conn : Conn Db) (id : UInt32) (extra : List Hpack.Header) : Conn Db :=
  conn.write ⟨frameHeaders, flagEndHeaders, id,
    Hpack.encode ([(":status", "200"), ("content-type", "application/grpc")] ++ extra)⟩

def sendError (conn : Conn Db) (id : UInt32) (status : Nat) (msg : String) : Conn Db :=
  conn.write ⟨frameHeaders, flagEndHeaders ||| flagEndStream, id,
    Hpack.encode [(":status", "200"), ("content-type", "application/grpc"),
      ("grpc-status", toString status), ("grpc-message", msg)]⟩

/-- The first message of the queue goes out, through both windows. -/
def sendData (conn : Conn Db) (id : UInt32) (stream : Stream) (msg : Bytes)
    (rest : List Bytes) : Conn Db :=
  ({ conn with connSendWindow := wrapSigned64 (conn.connSendWindow - msg.length) }.setStream id
    (some { stream with
      outbound := rest, sendWindow := wrapSigned64 (stream.sendWindow - msg.length) })).write
        ⟨frameData, 0, id, msg⟩

/-- The trailers end the stream, and a stream without a subscription is forgotten. -/
def sendTrailers (conn : Conn Db) (id : UInt32) (stream : Stream) (status : Nat)
    (msg : String) : Conn Db :=
  let conn := (conn.setStream id (some { stream with pendingTrailers := none })).write
    ⟨frameHeaders, flagEndHeaders ||| flagEndStream, id,
      Hpack.encode [("grpc-status", toString status), ("grpc-message", msg)]⟩
  if stream.subscribedTopic.isSome then conn else conn.setStream id none

/-- Every turn of the loop but the last takes a message from the queue. -/
def flushLoop (id : UInt32) : Nat → Conn Db → Conn Db
  | 0, conn => conn
  | fuel + 1, conn =>
      if conn.ended then conn
      else
        match conn.streams id with
        | none => conn
        | some stream =>
            match stream.outbound with
            | msg :: rest =>
                if (msg.length : Int) ≤ conn.connSendWindow ∧ msg.length ≤ stream.sendWindow then
                  flushLoop id fuel (conn.sendData id stream msg rest)
                else conn
            | [] =>
                match stream.pendingTrailers with
                | none => conn
                | some (status, msg) => conn.sendTrailers id stream status msg

def flushStream (conn : Conn Db) (id : UInt32) : Conn Db :=
  match conn.streams id with
  | none => conn
  | some stream => flushLoop id (stream.outbound.length + 1) conn

def pushMessage (conn : Conn Db) (id : UInt32) (msg : Bytes) : Conn Db :=
  match conn.streams id with
  | none => conn
  | some stream =>
      conn.setStream id
        (some { stream with
          outbound := stream.outbound ++ [msg], queued := stream.queued ++ [msg] })

def subscribed (conn : Conn Db) (topic : String) (id : UInt32) : Bool :=
  match conn.streams id with
  | none => false
  | some stream => decide (stream.subscribedTopic = some topic)

def onFluxEvent (conn : Conn Db) (topic : String) (record : FluxRecord)
    (order : List (UInt32)) : Conn Db :=
  let msg := encodeGrpcMessage (recordOf topic record).encode
  (order.filter (conn.subscribed topic)).foldl
    (fun conn id => (conn.pushMessage id msg).flushStream id) conn

def resize (conn : Conn Db) (val : Nat) : Conn Db :=
  let delta : Int := val - conn.peerInitialWindow
  { conn with
    peerInitialWindow := val
    streams := fun id => (conn.streams id).map fun stream =>
      { stream with
        sendWindow := wrapSigned64 (stream.sendWindow + delta)
        granted := max stream.granted (val + stream.updates) } }

def onSettings (conn : Conn Db) (frame : Frame) : Conn Db :=
  if frame.flag flagAck then { conn with peerSettingsAcked := true }
  else
    match parseSettings frame.payload with
    | .error _ => conn.stop
    | .ok entries =>
        (entries.foldl (fun conn entry =>
          if entry.1 = settingsInitialWindowSize then conn.resize entry.2 else conn) conn).write
            ⟨frameSettings, flagAck, 0, []⟩

def onPing (conn : Conn Db) (frame : Frame) : Conn Db :=
  conn.write ⟨framePing, flagAck, 0, frame.payload⟩

/-- The last four bytes of the payload. -/
def updateDelta (frame : Frame) : Nat :=
  if 4 ≤ frame.payload.length then ofBe (frame.payload.drop (frame.payload.length - 4)) else 0

def onWindowUpdate (conn : Conn Db) (frame : Frame) : Conn Db :=
  let delta := updateDelta frame
  if frame.streamId = 0 then
    { conn with connSendWindow := wrapSigned64 (conn.connSendWindow + delta) }
  else
    match conn.streams frame.streamId with
    | none => conn
    | some stream =>
        (conn.setStream frame.streamId
          (some { stream with
            sendWindow := wrapSigned64 (stream.sendWindow + delta)
            updates := stream.updates + delta
            granted := max stream.granted (conn.peerInitialWindow + (stream.updates + delta))
              })).flushStream frame.streamId

def onRstStream (conn : Conn Db) (frame : Frame) : Conn Db := conn.setStream frame.streamId none

def finishHeaders (conn : Conn Db) (id : UInt32) (block : Bytes) : Conn Db :=
  match conn.hpack.decode block with
  | (hpack, .error _) => { conn with hpack := hpack }.stop
  | (hpack, .ok headers) =>
      let stream := match conn.streams id with
        | none =>
            { Stream.new conn.written.length with granted := conn.peerInitialWindow }
        | some stream => { stream with reopened := true }
      { conn with hpack := hpack }.setStream id
        (some { stream with
          path := (headers.find? fun header : Hpack.Header => header.1 = ":path").map Prod.snd
          headers := headers
          sendWindow := conn.peerInitialWindow })

def onHeaders (conn : Conn Db) (frame : Frame) : Conn Db :=
  match headersBlockFragment frame with
  | .error _ => conn.stop
  | .ok frag =>
      let block := conn.pendingHeaders.getD [] ++ frag
      if frame.flag flagEndHeaders then
        { conn with pendingHeaders := none }.finishHeaders frame.streamId block
      else { conn with pendingHeaders := some block }

/-- `on_continuation` does with the fragment what `on_headers` does. -/
def onContinuation (conn : Conn Db) (frame : Frame) : Conn Db := conn.onHeaders frame

variable (services : Services Db)

def answer (conn : Conn Db) (id : UInt32) (stream : Stream) (body : Bytes) : Conn Db :=
  let authorization :=
    (stream.headers.find? fun header => header.1.toLower = "authorization").map Prod.snd
  match services.authenticateBasic conn.db authorization with
  | .error text =>
      (conn.sendError id grpcUnauthenticated ("unauthorized: " ++ text)).setStream id none
  | .ok _ =>
      match dispatch services conn.db (stream.path.getD "") body with
      | none => conn.stop
      | some (result, db) =>
          let conn := { conn with db := db }
          match result with
          | .unary headers msg trailers =>
              let conn := conn.sendResponseHead id headers
              let conn := match msg with
                | some m => conn.pushMessage id (encodeGrpcMessage m)
                | none => conn
              let conn := conn.setStream id ((conn.streams id).map fun stream =>
                { stream with pendingTrailers := some trailers })
              conn.flushStream id
          | .subscribe topic =>
              let conn := conn.sendResponseHead id []
              conn.setStream id ((conn.streams id).map fun stream =>
                { stream with subscribedTopic := some topic })
          | .error status msg => (conn.sendError id status msg).setStream id none

def onData (conn : Conn Db) (frame : Frame) : Conn Db :=
  match dataPayload frame with
  | .error _ => conn.stop
  | .ok data =>
      let conn := conn.sendWindowUpdate frame.streamId data.length
      match conn.streams frame.streamId with
      | none => conn
      | some stream =>
          let body := stream.body ++ data
          if frame.flag flagEndStream then
            let stream := { stream with reqEnded := true, body := [] }
            (conn.setStream frame.streamId (some stream)).answer services frame.streamId stream body
          else conn.setStream frame.streamId (some { stream with body := body })

def onFrame (conn : Conn Db) (frame : Frame) : Conn Db :=
  if frame.frameType = frameSettings then conn.onSettings frame
  else if frame.frameType = framePing then conn.onPing frame
  else if frame.frameType = frameWindowUpdate then conn.onWindowUpdate frame
  else if frame.frameType = frameHeaders then conn.onHeaders frame
  else if frame.frameType = frameContinuation then conn.onContinuation frame
  else if frame.frameType = frameData then conn.onData services frame
  else if frame.frameType = frameRstStream then conn.onRstStream frame
  else conn

/-- One turn of the loop in `serve`. -/
def step (conn : Conn Db) (event : Event) : Conn Db :=
  if conn.ended then conn
  else
    match event with
    | .frame frame => conn.onFrame services frame
    | .flux topic record order => conn.onFluxEvent topic record order

def run (conn : Conn Db) (events : List Event) : Conn Db := events.foldl (step services) conn

end Conn

end Pantheon.Wire.Grpc
