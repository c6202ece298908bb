import Mathlib
import Pantheon.Lib.Bytes
import Pantheon.Wire.Http2
import Pantheon.Wire.Grpc

/-!
# What a gRPC connection sends: `wire/grpc/mod.rs`

Over any run no more data goes out than the peer has allowed, on the connection and on each
stream, and a stream carries its messages in the order in which they were queued.
-/

set_option autoImplicit false

namespace Pantheon.Wire.Grpc

open Pantheon.Lib Pantheon.Wire.Http2

/-! ## The data that has gone out -/

def isDataOn (id : UInt32) (frame : Frame) : Bool :=
  decide (frame.frameType = frameData ∧ frame.streamId = id)

def dataOn (id : UInt32) (frames : List Frame) : List Bytes :=
  (frames.filter (isDataOn id)).map Frame.payload

def bytesOf (messages : List Bytes) : Nat := (messages.map List.length).sum

def dataBytes (frames : List Frame) : Nat :=
  bytesOf ((frames.filter fun frame => frame.frameType = frameData).map Frame.payload)

theorem bytesOf_append (front back : List Bytes) :
    bytesOf (front ++ back) = bytesOf front + bytesOf back := by
  simp [bytesOf]

theorem dataOn_append (id : UInt32) (front back : List Frame) :
    dataOn id (front ++ back) = dataOn id front ++ dataOn id back := by
  simp [dataOn]

theorem dataBytes_append (front back : List Frame) :
    dataBytes (front ++ back) = dataBytes front + dataBytes back := by
  simp [dataBytes, bytesOf]

/-- The data frames of a stream since it was opened. -/
def Stream.sent (stream : Stream) (id : UInt32) (written : List Frame) : List Bytes :=
  dataOn id (written.drop stream.openedAt)

/-! ## The invariant -/

/-- What the account of a stream looks at beside the stream: `total` bounds what the peer has ever
allowed on any stream. -/
structure Books where
  written : List Frame
  ended : Bool
  initial : Nat
  total : Nat

/-- A stream has sent no more than it was granted, and its window is what is left of what the peer
allows now, which can be less than nothing. -/
structure Paid (books : Books) (id : UInt32) (stream : Stream) : Prop where
  window : books.ended = false → stream.sendWindow =
    (books.initial : Int) + stream.updates - bytesOf (stream.sent id books.written)
  sent : bytesOf (stream.sent id books.written) ≤ stream.granted
  granted : books.initial + stream.updates ≤ stream.granted
  total : stream.granted ≤ books.total

/-- What a stream has sent and what waits are its messages. -/
structure Sent (books : Books) (id : UInt32) (stream : Stream) : Prop where
  opened : stream.openedAt ≤ books.written.length
  inOrder : books.ended = false → stream.sent id books.written ++ stream.outbound = stream.queued
  paid : stream.reopened = false → books.total < 2 ^ 63 → Paid books id stream

def books {Db : Type} (conn : Conn Db) (total : Nat) : Books :=
  ⟨conn.written, conn.ended, conn.peerInitialWindow, total⟩

/-- As long as the credit fits in an `i64`, so do the windows. -/
structure Inv {Db : Type} (conn : Conn Db) (credit total : Nat) : Prop where
  streams : ∀ id stream, conn.streams id = some stream → Sent (books conn total) id stream
  initial : conn.peerInitialWindow ≤ total
  window : credit < 2 ^ 63 →
    0 ≤ conn.connSendWindow ∧ (dataBytes conn.written : Int) + conn.connSendWindow ≤ credit

variable {Db : Type} {conn : Conn Db} {credit total : Nat} {ledger : Books} {id : UInt32}
  {stream : Stream}

namespace Sent

theorem end_ (sent : Sent ledger id stream) : Sent { ledger with ended := true } id stream :=
  ⟨sent.opened, nofun, fun once small =>
    let paid := sent.paid once small
    ⟨nofun, paid.sent, paid.granted, paid.total⟩⟩

theorem more (sent : Sent ledger id stream) (extra : Nat) :
    Sent { ledger with total := ledger.total + extra } id stream :=
  ⟨sent.opened, sent.inOrder, fun once small =>
    let paid := sent.paid once (Nat.lt_of_le_of_lt (Nat.le_add_right _ _) small)
    ⟨paid.window, paid.sent, paid.granted, Nat.le_add_right_of_le paid.total⟩⟩

theorem other {frame : Frame} (sent : Sent ledger id stream) (other : isDataOn id frame = false) :
    Sent { ledger with written := ledger.written ++ [frame] } id stream := by
  have same : stream.sent id (ledger.written ++ [frame]) = stream.sent id ledger.written := by
    rw [Stream.sent, List.drop_append_of_le_length sent.opened, dataOn_append]
    simp [Stream.sent, dataOn, other]
  have opened := sent.opened
  refine ⟨?_, ?_, fun once small => ?_⟩
  · rw [List.length_append]
    omega
  · rw [same]
    exact sent.inOrder
  · have paid := sent.paid once small
    refine ⟨?_, ?_, paid.granted, paid.total⟩
    · rw [same]
      exact paid.window
    · rw [same]
      exact paid.sent

theorem alike {stream' : Stream} (sent : Sent ledger id stream)
    (opened : stream'.openedAt = stream.openedAt) (window : stream'.sendWindow = stream.sendWindow)
    (outbound : stream'.outbound = stream.outbound) (queued : stream'.queued = stream.queued)
    (updates : stream'.updates = stream.updates) (granted : stream'.granted = stream.granted)
    (reopened : stream'.reopened = stream.reopened) : Sent ledger id stream' := by
  have same : stream'.sent id ledger.written = stream.sent id ledger.written := by
    rw [Stream.sent, Stream.sent, opened]
  refine ⟨opened ▸ sent.opened, fun live => ?_, fun once small => ?_⟩
  · rw [same, outbound, queued]
    exact sent.inOrder live
  · have paid := sent.paid (reopened ▸ once) small
    refine ⟨?_, ?_, ?_, ?_⟩
    · rw [same, window, updates]
      exact paid.window
    · rw [same, granted]
      exact paid.sent
    · rw [updates, granted]
      exact paid.granted
    · rw [granted]
      exact paid.total

theorem taken (sent : Sent ledger id stream) (rest : List Bytes) (window : Int) :
    Sent { ledger with ended := true } id
      { stream with outbound := rest, sendWindow := window } := by
  refine ⟨sent.opened, nofun, fun once small => ?_⟩
  have paid := sent.paid once small
  exact ⟨nofun, paid.sent, paid.granted, paid.total⟩

theorem data {msg : Bytes} {rest : List Bytes} (sent : Sent ledger id stream)
    (queue : stream.outbound = msg :: rest) (room : (msg.length : Int) ≤ stream.sendWindow)
    (live : ledger.ended = false) :
    Sent { ledger with written := ledger.written ++ [⟨frameData, 0, id, msg⟩] } id
      { stream with
        outbound := rest, sendWindow := wrapSigned64 (stream.sendWindow - msg.length) } := by
  have more : stream.sent id (ledger.written ++ [⟨frameData, 0, id, msg⟩]) =
      stream.sent id ledger.written ++ [msg] := by
    rw [Stream.sent, List.drop_append_of_le_length sent.opened, dataOn_append]
    simp [Stream.sent, dataOn, isDataOn]
  have bytes : bytesOf (stream.sent id ledger.written ++ [msg]) =
      bytesOf (stream.sent id ledger.written) + msg.length := by
    rw [bytesOf_append]
    simp [bytesOf]
  refine ⟨?_, fun _ => ?_, fun once small => ?_⟩
  · rw [List.length_append]
    exact Nat.le_add_right_of_le sent.opened
  · change stream.sent id _ ++ rest = stream.queued
    rw [more, List.append_assoc, List.singleton_append, ← queue]
    exact sent.inOrder live
  · change ledger.total < 2 ^ 63 at small
    have paid := sent.paid once small
    have window := paid.window live
    have granted := paid.granted
    have bound := paid.total
    refine ⟨fun _ => ?_, ?_, granted, bound⟩
    · change wrapSigned64 (stream.sendWindow - msg.length) =
        (ledger.initial : Int) + stream.updates - bytesOf (stream.sent id _)
      rw [more, bytes, wrapSigned64_of_isSigned64 ⟨by omega, by omega⟩]
      omega
    · change bytesOf (stream.sent id _) ≤ stream.granted
      rw [more, bytes]
      omega

theorem queue {msg : Bytes} (sent : Sent ledger id stream) :
    Sent ledger id
      { stream with
        outbound := stream.outbound ++ [msg], queued := stream.queued ++ [msg] } := by
  refine ⟨sent.opened, fun live => ?_, fun once small => ?_⟩
  · change stream.sent id ledger.written ++ (stream.outbound ++ [msg]) = stream.queued ++ [msg]
    rw [← List.append_assoc, sent.inOrder live]
  · have paid := sent.paid once small
    exact ⟨paid.window, paid.sent, paid.granted, paid.total⟩

theorem moved (sent : Sent ledger id stream) (initial updates extra : Nat) (delta : Int)
    (delta_ : delta = (initial : Int) + updates - (ledger.initial + stream.updates))
    (extra_ : initial + updates ≤ ledger.initial + stream.updates + extra) :
    Sent { ledger with initial := initial, total := ledger.total + extra } id
      { stream with
        sendWindow := wrapSigned64 (stream.sendWindow + delta)
        updates := updates
        granted := max stream.granted (initial + updates) } := by
  refine ⟨sent.opened, sent.inOrder, fun once small => ?_⟩
  change ledger.total + extra < 2 ^ 63 at small
  have paid := sent.paid once (by omega)
  have before := paid.sent
  have granted := paid.granted
  have bound := paid.total
  refine ⟨fun live => ?_, ?_, le_max_right _ _, ?_⟩
  · have window := paid.window live
    change wrapSigned64 (stream.sendWindow + delta) =
      (initial : Int) + updates - bytesOf (stream.sent id ledger.written)
    rw [wrapSigned64_of_isSigned64 ⟨by omega, by omega⟩]
    omega
  · exact before.trans (le_max_left _ _)
  · change max stream.granted (initial + updates) ≤ ledger.total + extra
    exact max_le (Nat.le_add_right_of_le bound) (by omega)

theorem fresh (small : ledger.initial ≤ ledger.total) : Sent ledger id
    { Stream.new ledger.written.length with
      sendWindow := ledger.initial, granted := ledger.initial } := by
  have none : dataOn id (ledger.written.drop ledger.written.length) = [] := by
    rw [List.drop_length]
    rfl
  refine ⟨le_refl _, fun _ => ?_, fun _ _ => ⟨fun _ => ?_, ?_, le_refl _, small⟩⟩
  · change dataOn id (ledger.written.drop ledger.written.length) ++ [] = []
    rw [none]
    rfl
  · change (ledger.initial : Int) = (ledger.initial : Int) + (0 : Nat) -
      bytesOf (dataOn id (ledger.written.drop ledger.written.length))
    rw [none]
    exact (Int.add_zero _).symm
  · change bytesOf (dataOn id (ledger.written.drop ledger.written.length)) ≤ ledger.initial
    rw [none]
    exact Nat.zero_le _

theorem reopen (sent : Sent ledger id stream) (window : Int) :
    Sent ledger id { stream with reopened := true, sendWindow := window } :=
  ⟨sent.opened, sent.inOrder, fun once => by cases once⟩

end Sent

namespace Inv

theorem alike {conn' : Conn Db} (inv : Inv conn credit total) (written : conn'.written = conn.written)
    (ended : conn'.ended = conn.ended) (window : conn'.connSendWindow = conn.connSendWindow)
    (initial : conn'.peerInitialWindow = conn.peerInitialWindow)
    (streams : conn'.streams = conn.streams) : Inv conn' credit total := by
  refine ⟨?_, ?_, ?_⟩
  · rw [books, written, ended, initial, streams]
    exact inv.streams
  · rw [initial]
    exact inv.initial
  · rw [written, window]
    exact inv.window

theorem more (inv : Inv conn credit total) (extra allowed : Nat) :
    Inv conn (credit + extra) (total + allowed) := by
  refine ⟨fun id stream held => (inv.streams id stream held).more allowed,
    Nat.le_add_right_of_le inv.initial, fun small => ?_⟩
  have bound := inv.window (Nat.lt_of_le_of_lt (Nat.le_add_right _ _) small)
  exact ⟨bound.1, by omega⟩

theorem stop (inv : Inv conn credit total) : Inv conn.stop credit total :=
  ⟨fun id stream held => (inv.streams id stream held).end_, inv.initial, inv.window⟩

theorem at_setStream {other : UInt32} {new : Option Stream} {found : Stream}
    (held : (conn.setStream id new).streams other = some found) :
    other = id ∧ new = some found ∨ other ≠ id ∧ conn.streams other = some found := by
  change Function.update conn.streams id new other = some found at held
  by_cases same : other = id
  · subst same
    rw [Function.update_self] at held
    exact .inl ⟨rfl, held⟩
  · rw [Function.update_of_ne same] at held
    exact .inr ⟨same, held⟩

theorem streams_set
    (others : ∀ other found, other ≠ id → conn.streams other = some found →
      Sent ledger other found)
    (sent : Sent ledger id stream) (other : UInt32) (found : Stream)
    (held : (conn.setStream id (some stream)).streams other = some found) :
    Sent ledger other found := by
  rcases at_setStream held with ⟨same, found_⟩ | ⟨different, held⟩
  · cases found_
    subst same
    exact sent
  · exact others other found different held

theorem set (inv : Inv conn credit total) (sent : Sent (books conn total) id stream) :
    Inv (conn.setStream id (some stream)) credit total :=
  ⟨streams_set (fun other found _ held => inv.streams other found held) sent, inv.initial,
    inv.window⟩

theorem forget (inv : Inv conn credit total) (id : UInt32) :
    Inv (conn.setStream id none) credit total := by
  refine ⟨fun other found held => ?_, inv.initial, inv.window⟩
  rcases at_setStream held with ⟨_, found_⟩ | ⟨_, held⟩
  · cases found_
  · exact inv.streams other found held

theorem write {type flags : UInt8} {payload : Bytes} (inv : Inv conn credit total)
    (free : type ≠ frameData) : Inv (conn.write ⟨type, flags, id, payload⟩) credit total := by
  unfold Conn.write
  split_ifs with stopped large
  · exact inv
  · exact inv.stop
  · refine ⟨fun id stream held => (inv.streams id stream held).other ?_, inv.initial, ?_⟩
    · exact decide_eq_false fun both => free both.1
    · rw [dataBytes_append]
      simpa [dataBytes, bytesOf, free] using inv.window

theorem sendData {msg : Bytes} {rest : List Bytes} (inv : Inv conn credit total)
    (held : conn.streams id = some stream) (queue : stream.outbound = msg :: rest)
    (room : (msg.length : Int) ≤ conn.connSendWindow)
    (own : (msg.length : Int) ≤ stream.sendWindow) (live : conn.ended = false) :
    Inv (conn.sendData id stream msg rest) credit total := by
  have sent := inv.streams id stream held
  have window : credit < 2 ^ 63 →
      wrapSigned64 (conn.connSendWindow - msg.length) = conn.connSendWindow - msg.length ∧
        0 ≤ conn.connSendWindow - msg.length ∧
        (dataBytes conn.written : Int) + conn.connSendWindow ≤ credit := by
    intro small
    have bound := inv.window small
    exact ⟨wrapSigned64_of_isSigned64 ⟨by omega, by omega⟩, by omega, bound.2⟩
  unfold Conn.sendData Conn.write
  split_ifs with stopped large
  · rw [show conn.ended = true from stopped] at live
    cases live
  · refine ⟨streams_set (fun other found _ there => ?_) (sent.taken rest _), inv.initial,
      fun small => ?_⟩
    · exact (inv.streams other found there).end_
    · obtain ⟨same, positive, bound⟩ := window small
      change 0 ≤ wrapSigned64 _ ∧ (dataBytes conn.written : Int) + wrapSigned64 _ ≤ credit
      rw [same]
      exact ⟨positive, by omega⟩
  · refine ⟨streams_set (fun other found different there => ?_) (sent.data queue own live),
      inv.initial, fun small => ?_⟩
    · refine (inv.streams other found there).other ?_
      exact decide_eq_false fun both => different both.2.symm
    · obtain ⟨same, positive, bound⟩ := window small
      have one : dataBytes [⟨frameData, 0, id, msg⟩] = msg.length := by
        simp [dataBytes, bytesOf]
      dsimp only [Conn.setStream]
      rw [same, dataBytes_append, one]
      exact ⟨positive, by omega⟩

theorem sendTrailers (inv : Inv conn credit total) (held : conn.streams id = some stream) (status : Nat)
    (msg : String) : Inv (conn.sendTrailers id stream status msg) credit total := by
  have sent := inv.streams id stream held
  have free : frameHeaders ≠ frameData := by decide
  unfold Conn.sendTrailers
  dsimp only
  split_ifs with subscribes
  · refine write (set inv ?_) free
    exact sent.alike rfl rfl rfl rfl rfl rfl rfl
  · refine forget (write (set inv ?_) free) id
    exact sent.alike rfl rfl rfl rfl rfl rfl rfl

theorem flushLoop (inv : Inv conn credit total) (id : UInt32) (fuel : Nat) :
    Inv (Conn.flushLoop id fuel conn) credit total := by
  induction fuel generalizing conn with
  | zero => exact inv
  | succ fuel hyp =>
      rw [Conn.flushLoop]
      by_cases stopped : conn.ended = true
      · rw [if_pos stopped]
        exact inv
      · rw [if_neg stopped]
        split
        · exact inv
        · rename_i stream held
          split
          · rename_i msg rest queue
            split_ifs with room
            · exact hyp (inv.sendData held queue room.1 room.2 (by simpa using stopped))
            · exact inv
          · split
            · exact inv
            · exact inv.sendTrailers held _ _

theorem flushStream (inv : Inv conn credit total) (id : UInt32) :
    Inv (conn.flushStream id) credit total := by
  unfold Conn.flushStream
  split
  · exact inv
  · exact inv.flushLoop id _

theorem pushMessage (inv : Inv conn credit total) (id : UInt32) (msg : Bytes) :
    Inv (conn.pushMessage id msg) credit total := by
  unfold Conn.pushMessage
  split
  · exact inv
  · rename_i stream held
    exact inv.set (inv.streams id stream held).queue

theorem onFluxEvent (inv : Inv conn credit total) (topic : String) (record : Keystone.FluxRecord)
    (order : List (UInt32)) : Inv (conn.onFluxEvent topic record order) credit total := by
  unfold Conn.onFluxEvent
  generalize order.filter (conn.subscribed topic) = ids
  induction ids generalizing conn with
  | nil => exact inv
  | cons id ids hyp => exact hyp ((inv.pushMessage id _).flushStream id)

theorem resize (inv : Inv conn credit total) (val : Nat) :
    Inv (conn.resize val) credit (total + val) := by
  refine ⟨fun id found held => ?_, Nat.le_add_left _ _, inv.window⟩
  obtain ⟨stream, there, rfl⟩ := Option.map_eq_some_iff.mp held
  refine (inv.streams id stream there).moved val stream.updates val
    ((val : Int) - conn.peerInitialWindow) ?_ ?_
  · change (val : Int) - conn.peerInitialWindow =
      val + stream.updates - (conn.peerInitialWindow + stream.updates)
    omega
  · change val + stream.updates ≤ conn.peerInitialWindow + stream.updates + val
    omega

def initialWindows (entries : List (Nat × Nat)) : Nat :=
  ((entries.filter fun entry => entry.1 = settingsInitialWindowSize).map Prod.snd).sum

theorem resizes (entries : List (Nat × Nat)) : ∀ {conn : Conn Db} {total : Nat},
    Inv conn credit total →
    Inv (entries.foldl (fun conn entry =>
      if entry.1 = settingsInitialWindowSize then conn.resize entry.2 else conn) conn) credit
        (total + initialWindows entries) := by
  induction entries with
  | nil => exact fun inv => inv
  | cons entry entries hyp =>
      intro conn total inv
      rw [List.foldl_cons]
      by_cases sizes : entry.1 = settingsInitialWindowSize
      · have rest := hyp (inv.resize entry.2)
        rw [if_pos sizes]
        simpa [initialWindows, sizes, Nat.add_assoc] using rest
      · rw [if_neg sizes]
        simpa [initialWindows, sizes] using hyp inv

/-- The initial windows that a frame sets: an acknowledgement sets none. -/
def settingsCredit (frame : Frame) : Nat :=
  if frame.flag flagAck then 0
  else
    match parseSettings frame.payload with
    | .error _ => 0
    | .ok entries => initialWindows entries

theorem onSettings (inv : Inv conn credit total) (frame : Frame) :
    Inv (conn.onSettings frame) credit (total + settingsCredit frame) := by
  unfold Conn.onSettings settingsCredit
  split_ifs with ack
  · exact inv.alike rfl rfl rfl rfl rfl
  · cases parseSettings frame.payload with
    | error text => exact inv.stop
    | ok entries => exact write (resizes entries inv) (by decide)

theorem onPing (inv : Inv conn credit total) (frame : Frame) :
    Inv (conn.onPing frame) credit total :=
  inv.write (by decide)

theorem onWindowUpdate (inv : Inv conn credit total) (frame : Frame) :
    Inv (conn.onWindowUpdate frame)
      (credit + if frame.streamId = 0 then Conn.updateDelta frame else 0)
      (total + if frame.streamId = 0 then 0 else Conn.updateDelta frame) := by
  unfold Conn.onWindowUpdate
  dsimp only
  split_ifs with whole
  · refine ⟨inv.streams, inv.initial, fun small => ?_⟩
    have bound := inv.window (Nat.lt_of_le_of_lt (Nat.le_add_right _ _) small)
    change 0 ≤ wrapSigned64 (conn.connSendWindow + Conn.updateDelta frame) ∧
      (dataBytes conn.written : Int) + wrapSigned64 (conn.connSendWindow + Conn.updateDelta frame) ≤
        _
    rw [wrapSigned64_of_isSigned64 ⟨by omega, by omega⟩]
    exact ⟨by omega, by omega⟩
  · have roomy := inv.more 0 (Conn.updateDelta frame)
    split
    · exact roomy
    · rename_i stream held
      have grown := (inv.streams _ stream held).moved conn.peerInitialWindow
        (stream.updates + Conn.updateDelta frame) (Conn.updateDelta frame) (Conn.updateDelta frame)
        (by
          change _ = (conn.peerInitialWindow : Int) + _ - (conn.peerInitialWindow + _)
          omega)
        (by
          change _ ≤ conn.peerInitialWindow + _ + _
          omega)
      exact (roomy.set grown).flushStream _

theorem finishHeaders (inv : Inv conn credit total) (id : UInt32) (block : Bytes) :
    Inv (conn.finishHeaders id block) credit total := by
  unfold Conn.finishHeaders
  split
  · refine stop ?_
    exact inv.alike rfl rfl rfl rfl rfl
  · refine set ?_ ?_
    · exact inv.alike rfl rfl rfl rfl rfl
    cases held : conn.streams id with
    | none =>
        have fresh : Sent (books conn total) id _ := Sent.fresh inv.initial
        exact fresh.alike rfl rfl rfl rfl rfl rfl rfl
    | some stream =>
        have again := (inv.streams id stream held).reopen conn.peerInitialWindow
        exact again.alike rfl rfl rfl rfl rfl rfl rfl

theorem onHeaders (inv : Inv conn credit total) (frame : Frame) : Inv (conn.onHeaders frame) credit total := by
  unfold Conn.onHeaders
  split
  · exact inv.stop
  · dsimp only
    split_ifs
    · refine finishHeaders ?_ _ _
      exact inv.alike rfl rfl rfl rfl rfl
    · exact inv.alike rfl rfl rfl rfl rfl

variable (services : Services Db)

theorem mark {change : Stream → Stream} (inv : Inv conn credit total) (id : UInt32)
    (quiet : ∀ stream, Sent (books conn total) id stream →
      Sent (books conn total) id (change stream)) :
    Inv (conn.setStream id ((conn.streams id).map change)) credit total := by
  cases held : conn.streams id with
  | none => exact inv.forget id
  | some stream => exact inv.set (quiet stream (inv.streams id stream held))

theorem answer (inv : Inv conn credit total) (id : UInt32) (stream : Stream) (body : Bytes) :
    Inv (conn.answer services id stream body) credit total := by
  have free : frameHeaders ≠ frameData := by decide
  unfold Conn.answer
  dsimp only
  split
  · exact (inv.write free).forget id
  · split
    · exact inv.stop
    · rename_i result db _
      have moved : Inv { conn with db := db } credit total := inv.alike rfl rfl rfl rfl rfl
      split
      · refine flushStream (mark ?_ id ?_) id
        · split
          · exact (moved.write free).pushMessage id _
          · exact moved.write free
        · exact fun stream sent => sent.alike rfl rfl rfl rfl rfl rfl rfl
      · refine mark (moved.write free) id ?_
        exact fun stream sent => sent.alike rfl rfl rfl rfl rfl rfl rfl
      · exact (moved.write free).forget id

theorem onData (inv : Inv conn credit total) (frame : Frame) :
    Inv (conn.onData services frame) credit total := by
  have free : frameWindowUpdate ≠ frameData := by decide
  unfold Conn.onData
  split
  · exact inv.stop
  · rename_i data _
    have updated : Inv (conn.sendWindowUpdate frame.streamId data.length) credit total := inv.write free
    dsimp only
    split
    · exact updated
    · rename_i stream held
      have sent := updated.streams _ stream held
      split_ifs
      · refine answer services (updated.set ?_) _ _ _
        exact sent.alike rfl rfl rfl rfl rfl rfl rfl
      · refine updated.set ?_
        exact sent.alike rfl rfl rfl rfl rfl rfl rfl

end Inv

/-! ## A flush -/

def Settled (conn : Conn Db) (id : UInt32) : Prop :=
  ∀ stream, conn.streams id = some stream →
    stream.outbound = [] ∧ stream.pendingTrailers = none ∨
      ∃ msg rest, stream.outbound = msg :: rest ∧
        ¬((msg.length : Int) ≤ conn.connSendWindow ∧ msg.length ≤ stream.sendWindow)

theorem write_streams (frame : Frame) : (conn.write frame).streams = conn.streams := by
  unfold Conn.write
  split_ifs <;> rfl

theorem sendTrailers_settled (id : UInt32) (queue : stream.outbound = []) (status : Nat)
    (msg : String) : Settled (conn.sendTrailers id stream status msg) id := by
  intro found held
  unfold Conn.sendTrailers at held
  dsimp only at held
  split_ifs at held with subscribes
  · rw [write_streams] at held
    rcases Inv.at_setStream held with ⟨_, found_⟩ | ⟨different, _⟩
    · cases found_
      exact .inl ⟨queue, rfl⟩
    · exact absurd rfl different
  · rcases Inv.at_setStream held with ⟨_, found_⟩ | ⟨different, _⟩
    · cases found_
    · exact absurd rfl different

theorem flushLoop_settled (id : UInt32) (fuel : Nat)
    (enough : ∀ stream, conn.streams id = some stream → stream.outbound.length < fuel)
    (live : (Conn.flushLoop id fuel conn).ended = false) :
    Settled (Conn.flushLoop id fuel conn) id := by
  induction fuel generalizing conn with
  | zero =>
      intro stream held
      exact absurd (enough stream held) (Nat.not_lt_zero _)
  | succ fuel hyp =>
      rw [Conn.flushLoop] at live ⊢
      by_cases stopped : conn.ended = true
      · rw [if_pos stopped] at live
        rw [stopped] at live
        cases live
      · rw [if_neg stopped] at live ⊢
        cases held : conn.streams id with
        | none =>
            intro stream there
            rw [held] at there
            cases there
        | some stream =>
            have longer := enough stream held
            rw [held] at live
            dsimp only at live ⊢
            cases queue : stream.outbound with
            | nil =>
                cases trailers : stream.pendingTrailers with
                | none =>
                    intro found there
                    rw [held] at there
                    cases there
                    exact .inl ⟨queue, trailers⟩
                | some trailer => exact sendTrailers_settled id queue _ _
            | cons msg rest =>
                rw [queue] at live longer
                dsimp only at live ⊢
                split_ifs at live ⊢ with room
                · refine hyp (fun found there => ?_) live
                  unfold Conn.sendData at there
                  rw [write_streams] at there
                  rcases Inv.at_setStream there with ⟨_, found_⟩ | ⟨different, _⟩
                  · cases found_
                    exact Nat.lt_of_succ_lt_succ longer
                  · exact absurd rfl different
                · intro found there
                  rw [held] at there
                  cases there
                  exact .inr ⟨msg, rest, queue, room⟩

theorem flushStream_settled (id : UInt32) (live : (conn.flushStream id).ended = false) :
    Settled (conn.flushStream id) id := by
  cases held : conn.streams id with
  | none =>
      intro stream there
      rw [Conn.flushStream, held] at there
      rw [held] at there
      cases there
  | some stream =>
      rw [Conn.flushStream, held] at live ⊢
      refine flushLoop_settled id _ (fun found there => ?_) live
      rw [held] at there
      cases there
      exact Nat.lt_succ_self _

/-! ## Over a run -/

def Event.allows : Event → Nat
  | .frame received =>
      if received.frameType = frameWindowUpdate ∧ received.streamId = 0 then
        Conn.updateDelta received
      else 0
  | .flux _ _ _ => 0

def connectionCredit (events : List Event) : Nat := (events.map Event.allows).sum

/-- What an event adds to the most that the peer can allow on a stream. -/
def Event.allowsStreams : Event → Nat
  | .frame received =>
      if received.frameType = frameSettings then Inv.settingsCredit received
      else if received.frameType = frameWindowUpdate ∧ received.streamId ≠ 0 then
        Conn.updateDelta received
      else 0
  | .flux _ _ _ => 0

def streamCredit (events : List Event) : Nat := (events.map Event.allowsStreams).sum

section Runs

variable (services : Services Db)

theorem Inv.onFrame (inv : Inv conn credit total) (frame : Frame) :
    Inv (conn.onFrame services frame) (credit + (Event.frame frame).allows)
      (total + (Event.frame frame).allowsStreams) := by
  unfold Conn.onFrame
  split_ifs with settings ping update headers continuation data reset
  · have sized := (inv.onSettings frame).more (Event.frame frame).allows 0
    simpa [Event.allowsStreams, settings] using sized
  · exact (inv.onPing frame).more _ _
  · have moved := inv.onWindowUpdate frame
    have other : frameWindowUpdate ≠ frameSettings := by decide
    by_cases whole : frame.streamId = 0
    · simpa [Event.allows, Event.allowsStreams, update, other, whole] using moved
    · simpa [Event.allows, Event.allowsStreams, update, other, whole] using moved
  · exact (inv.onHeaders frame).more _ _
  · exact (inv.onHeaders frame).more _ _
  · exact (inv.onData services frame).more _ _
  · exact (inv.forget frame.streamId).more _ _
  · exact inv.more _ _

theorem Inv.step (inv : Inv conn credit total) (event : Event) :
    Inv (conn.step services event) (credit + event.allows) (total + event.allowsStreams) := by
  unfold Conn.step
  split_ifs
  · exact inv.more _ _
  · cases event with
    | frame frame => exact inv.onFrame services frame
    | flux topic record order => exact (inv.onFluxEvent topic record order).more _ _

theorem Inv.run (inv : Inv conn credit total) (events : List Event) :
    Inv (conn.run services events) (credit + connectionCredit events)
      (total + streamCredit events) := by
  induction events generalizing conn credit total with
  | nil => exact inv
  | cons event events hyp =>
      have rest := hyp (inv.step services event)
      simpa [Conn.run, connectionCredit, streamCredit, Nat.add_assoc] using rest

theorem Inv.start (db : Db) : Inv (Conn.new db) defaultInitialWindow defaultInitialWindow := by
  refine ⟨fun id stream held => ?_, le_refl _, fun _ => ⟨?_, ?_⟩⟩
  · cases (show none = some stream from held)
  · exact Int.natCast_nonneg defaultInitialWindow
  · have none : dataBytes (Conn.new db).written = 0 := rfl
    rw [none]
    exact le_of_eq (Int.zero_add _)

/-- Whatever frames and records come, and in whatever order, no more data goes out than the initial
window and the updates of the connection allow, as long as their sum is an `i64`. -/
theorem connection_flow_control (db : Db) (events : List Event)
    (within : defaultInitialWindow + connectionCredit events < 2 ^ 63) :
    let conn := (Conn.new db).run services events
    0 ≤ conn.connSendWindow ∧
      (dataBytes conn.written : Int) + conn.connSendWindow ≤
        defaultInitialWindow + connectionCredit events :=
  ((Inv.start db).run services events).window within

/-- While the session lives, what a stream has sent and what waits are all of its messages, each
once and in order.  As long as its first block of headers is the only one and the credit is an
`i64`, it has sent no more than it was granted, and its window is what is left of what the peer
allows now. -/
theorem streams_keep_order (db : Db) (events : List Event) (id : UInt32) (stream : Stream)
    (held : ((Conn.new db).run services events).streams id = some stream) :
    let conn := (Conn.new db).run services events
    (conn.ended = false → stream.sent id conn.written ++ stream.outbound = stream.queued) ∧
      (stream.reopened = false → defaultInitialWindow + streamCredit events < 2 ^ 63 →
        bytesOf (stream.sent id conn.written) ≤ stream.granted ∧
          (conn.ended = false → stream.sendWindow =
            (conn.peerInitialWindow : Int) + stream.updates -
              bytesOf (stream.sent id conn.written))) := by
  have sent := ((Inv.start db).run services events).streams id stream held
  exact ⟨sent.inOrder, fun once within =>
    ⟨(sent.paid once within).sent, (sent.paid once within).window⟩⟩

def idle : Services Unit where
  authenticateBasic := fun _ _ => .ok ()
  fluxPublish := fun db _ _ _ _ => (.error "no topics", db)
  fluxPoll := fun _ _ _ _ _ => .error "no topics"
  fluxNumPartitions := fun _ _ => none
  createTopic := fun db _ _ => (.error "no topics", db)

def subscription : List Event :=
  [.frame ⟨frameHeaders, flagEndHeaders, 1, Hpack.encode [(":path", "/flux.Flux/Subscribe")]⟩,
    .frame ⟨frameData, flagEndStream, 1, [0, 0, 0, 0, 3, 0x0a, 1, 0x74]⟩,
    .flux "t" ⟨5, none, [1, 2], 7⟩ [1]]

/-- A subscription, one record, and the windows that are left. -/
theorem connection_flow_control_subscription :
    let conn := (Conn.new ()).run idle subscription
    conn.connSendWindow = 65519 ∧ 0 ≤ conn.connSendWindow ∧
      (dataBytes conn.written : Int) + conn.connSendWindow ≤
        defaultInitialWindow + connectionCredit subscription := by
  refine ⟨by decide +kernel, ?_⟩
  exact connection_flow_control idle () subscription (by decide +kernel)

theorem streams_keep_order_subscription :
    let conn := (Conn.new ()).run idle subscription
    ∃ stream, conn.streams 1 = some stream ∧ stream.sendWindow = 65519 ∧
      stream.queued = [[0, 0, 0, 0, 11, 8, 5, 26, 2, 1, 2, 32, 7, 42, 1, 116]] ∧
      stream.sent 1 conn.written ++ stream.outbound = stream.queued ∧
      bytesOf (stream.sent 1 conn.written) ≤ stream.granted ∧
      stream.sendWindow = (conn.peerInitialWindow : Int) + stream.updates -
        bytesOf (stream.sent 1 conn.written) := by
  have subscribed : (((Conn.new ()).run idle subscription).streams 1).map (fun stream =>
      (stream.queued, stream.sendWindow, stream.reopened)) =
      some ([[0, 0, 0, 0, 11, 8, 5, 26, 2, 1, 2, 32, 7, 42, 1, 116]], 65519, false) := by
    decide +kernel
  have live : ((Conn.new ()).run idle subscription).ended = false := by decide +kernel
  obtain ⟨stream, held, fields⟩ := Option.map_eq_some_iff.mp subscribed
  rw [Prod.mk.injEq, Prod.mk.injEq] at fields
  obtain ⟨queued, window, once⟩ := fields
  obtain ⟨ordered, paid⟩ := streams_keep_order idle () subscription 1 stream held
  obtain ⟨granted, left⟩ := paid once (by decide +kernel)
  exact ⟨stream, held, window, queued, ordered live, granted, left live⟩

theorem flushStream_settled_subscription :
    Settled (((Conn.new ()).run idle subscription).flushStream 1) 1 :=
  flushStream_settled 1 (by decide +kernel)

end Runs

end Pantheon.Wire.Grpc
