import ViewerCircuit.Circuit.Notice

/-!
# Sending

A packet gets its sequence number and its bytes when it is queued; acks are appended, and reliable
packets tracked, only when it is put on the wire. Closing a circuit closes its queue and keeps the
first reason.
-/
namespace ViewerCircuit

def Outgoing.ofPacket (p : Packet) (bytes : Bytes) (category : Category) : Outgoing where
  bytes
  kind := p.kind
  sequence := p.sequence
  delivery := if p.flags.reliable then .reliable else .unreliable
  category

namespace Site

/-- Queues a packet. A packet that cannot be written costs a sequence number; on a closed circuit
nothing is queued. -/
def send (p : Packet) (category : Category) (s : Site) : Option EncodeError × Site :=
  if s.circuit.phase = .closed then (none, (s.recycle p).emit (.turnedAway p))
  else
    let (sequence, sequences) := s.circuit.sequences.next
    let s := s.update fun c => { c with sequences }
    let p := { p with sequence }
    match p.encode with
    | .error e => (some e, s.emit (.unwritable p e))
    | .ok bytes =>
      let outgoing := Outgoing.ofPacket p bytes category
      let s := (s.recycle p).update fun c => { c with queue := c.queue.enqueue outgoing }
      (none, s.emit (.queued outgoing))

def sendAll : List (Packet × Category) → Site → Option EncodeError × Site
  | [], s => (none, s)
  | (p, category) :: rest, s =>
    match s.send p category with
    | (none, s) => sendAll rest s
    | (some e, s) => (some e, s)

def say (drafts : List Draft) (s : Site) : Option EncodeError × Site :=
  let (packets, pool) := Draft.issueAll drafts s.pool
  sendAll packets { s with pool }

def tell (notice : Notice) (s : Site) : Option EncodeError × Site := s.say (s.circuit.drafts notice)

/-- Queues the packets of a notice that is known to fit. -/
def inform (notice : Notice) (s : Site) : Site := (s.tell notice).2

def close (reason : CloseReason) (s : Site) : Site :=
  (s.update fun c =>
    let c :=
      if c.phase.isEnding then c else { c with phase := .closing, closeReason := some reason }
    { c with queue := c.queue.close }).emit (.closeCalled reason)

def kick (reason : String) (s : Site) : Option EncodeError × Site :=
  let (failure, s) := s.tell (.kick reason)
  (failure, if failure.isSome then s else s.close .kicked)

def startPing (s : Site) : Site :=
  let pingId := s.circuit.nextPingId
  let oldest := s.circuit.ackState.inFlight.oldest
  ((s.update fun c => { c with nextPingId := pingId + 1 }).say [Outbound.startPing pingId oldest]).2

def acksPerPacket : Nat := 255

def takeAcks (s : Site) : List UInt32 × Site :=
  let (ids, owed) := s.circuit.ackState.owed.take acksPerPacket
  (ids, s.update fun c => { c with ackState := { c.ackState with owed } })

/-- Queues packets with `chunks` times as many acks as fit one packet, the oldest first. -/
def sendAckChunks : (chunks : Nat) → Site → Site
  | 0, s => s
  | chunks + 1, s =>
    let (ids, taken) := s.takeAcks
    if ids.isEmpty then s else sendAckChunks chunks (taken.inform (.acks ids))

def sendOwedAcks (s : Site) : Site := sendAckChunks s.circuit.ackState.owed.count s

/-- The acks that fit behind a datagram of `length` bytes. -/
def ackRoom (maxPacketSize length : Nat) : Nat := (maxPacketSize - (length + 1)) / ackLength

/-- Puts a packet on the wire; `false` if the transport fails. -/
def transmit (now : Nat) (linkUp : Bool) (p : Outgoing) (s : Site) : Bool × Site :=
  let room := ackRoom s.circuit.config.maxPacketSize p.bytes.length
  let (datagram, ackState) := s.circuit.ackState.depart now room p
  let s := s.update fun c => { c with ackState }
  let s := s.emit (.transmitted s.circuit.sendAddress datagram p linkUp)
  if linkUp then
    (true, s.update fun c => { c with counters := { c.counters with
      packetsOut := c.counters.packetsOut + 1
      packetsResent := c.counters.packetsResent + if p.delivery = .resend then 1 else 0 } })
  else (false, s)

end Site
end ViewerCircuit
