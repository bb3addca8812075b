import Mathlib.Algebra.Order.Ring.Int

/-!
# A TCP connection

`tcp_input` from the point where the connection is found, the callbacks it runs
(`psock_send_eventhandler`, `tcp_eventhandler`, `tcp_close_eventhandler`, `tcp_data_event`), the
answer (`tcp_appsend`, `tcp_rexmit`), `tcp_poll`, the expiry of the timer, the keep-alive probe, and
the calls of the application. Sequence numbers are 32-bit words and bytes are of any type.

The connection is bound to the one device there is. Round trip estimation, delayed
acknowledgments and the notification of waiting threads are left out; the expiry of the
retransmission timer is an event. Data is sent as with `CONFIG_NET_TCP_WRITE_BUFFERS`.
-/

namespace NuttxRtos.Tcp

/-- A sequence number. -/
abbrev Seq := BitVec 32

/-- `tcpstateflags & TCP_STATE_MASK`; a listener has no connection of this kind. -/
inductive State where
  | closed
  | allocated
  | synRcvd
  | synSent
  | established
  | finWait1
  | finWait2
  | closing
  | timeWait
  | lastAck
deriving DecidableEq

/-- `tcpstateflags & TCP_ESTABLISHED`: a test of one bit, which four states have. -/
def State.hasEstablished : State → Bool
  | .established | .finWait1 | .finWait2 | .closing => true
  | _ => false

/-- The control bits of a segment. -/
structure Ctl where
  fin : Bool := false
  syn : Bool := false
  rst : Bool := false
  psh : Bool := false
  ack : Bool := false
  urg : Bool := false
deriving DecidableEq

/-- What is read of an incoming segment. `options` are the bytes behind the header of fixed length,
and `mss` is the MSS option, bounded by that of the device. -/
structure Segment (B : Type) where
  ctl : Ctl
  seqno : Seq
  ackno : Seq
  wnd : ℕ
  urgp : ℕ
  mss : Option ℕ
  options : List B
  payload : List B

/-- What is taken for the payload: `d_len` bytes from `d_appdata` on, which is where the options
begin. -/
def Segment.data {B : Type} (seg : Segment B) : List B :=
  (seg.options ++ seg.payload).take seg.payload.length

/-- A segment handed to the device. -/
structure Output (B : Type) where
  ctl : Ctl
  seqno : Seq
  ackno : Seq
  data : List B
deriving DecidableEq

/-- `struct tcp_wrbuffer_s`. The chain of I/O buffers is its bytes. -/
structure WrBuffer (B : Type) where
  seqno : Seq
  sent : ℕ
  nrtx : ℕ
  data : List B
deriving DecidableEq

/-- `(unsigned)-1`: no sequence number yet. -/
def unassigned : Seq := 0xffffffff

/-- `struct tcp_conn_s`, with its callbacks. -/
structure Conn (B : Type) where
  state : State
  stopped : Bool
  rcvseq : Seq
  sndseq : Seq
  nrtx : ℕ
  mss : ℕ
  winsize : ℕ
  txUnacked : Seq
  /-- Chains of I/O buffers, oldest first. -/
  readahead : List (List B)
  writeQ : List (WrBuffer B)
  unackedQ : List (WrBuffer B)
  expired : ℕ
  sent : Seq
  isn : Seq
  sndseqMax : Seq
  /-- `psock_send_eventhandler` is installed. -/
  sndcb : Bool
  /-- The socket refers to that callback, `s_sndcb != NULL`. -/
  sndcbOwned : Bool
  /-- The room in the buffer of the thread that waits in `psock_tcp_recvfrom`, if one does. -/
  receiver : Option ℕ
  /-- `tcp_close_eventhandler` is installed. -/
  closing : Bool
  /-- What has been copied to the user's buffers so far; the code does not keep it. -/
  received : List B
  /-- The sequence number of our SYN or FIN when it was first sent; the code does not keep it. -/
  ctlseq : Seq
deriving DecidableEq

/-- The events passed to callbacks. -/
structure Flags where
  ackdata : Bool := false
  newdata : Bool := false
  sndack : Bool := false
  rexmit : Bool := false
  poll : Bool := false
  close : Bool := false
  abort : Bool := false
  connected : Bool := false
  timedout : Bool := false
deriving DecidableEq

/-- `TCP_DISCONN_EVENTS`. -/
def Flags.disconn (flags : Flags) : Bool := flags.close || flags.abort || flags.timedout

/-- The configuration: `CONFIG_NET_TCP_WRITE_BUFFERS` and `CONFIG_NET_TCP_KEEPALIVE`. -/
structure Config where
  writeBuffers : Bool
  keepalive : Bool

/-- A number as it is stored in `tx_unacked`, which has 16 bits without write buffers. -/
def Config.unackedCount (cfg : Config) (n : Seq) : Seq :=
  if cfg.writeBuffers then n else n &&& 0xffff

/-- What the rest of the system answers while a segment is processed. -/
structure Env where
  /-- There are I/O buffers for the data in `tcp_datahandler`. -/
  room : Bool
  /-- `tcp_accept_connection` finds a listener. -/
  accepts : Bool

/-- `TCP_MAXRTX`. -/
def maxRtx : ℕ := 8

/-- `TCP_MAXSYNRTX`. -/
def maxSynRtx : ℕ := 5

variable {B : Type}

/-! ## Write buffers -/

/-- `psock_insert_segment`: the queue is kept in the order of the sequence numbers. -/
def insertSegment (wrb : WrBuffer B) : List (WrBuffer B) → List (WrBuffer B)
  | [] => [wrb]
  | wrb0 :: rest =>
    if wrb0.seqno < wrb.seqno then wrb0 :: insertSegment wrb rest else wrb :: wrb0 :: rest

/-- Trim the acknowledged bytes from the beginning, at most those that have been sent. -/
def WrBuffer.trim (wrb : WrBuffer B) (ackno : Seq) : WrBuffer B :=
  let trimlen := min (ackno - wrb.seqno).toNat wrb.sent
  { wrb with data := wrb.data.drop trimlen, seqno := ackno, sent := wrb.sent - trimlen }

/-- What an acknowledgment leaves of a buffer of `unacked_q`. -/
def WrBuffer.acked (ackno : Seq) (wrb : WrBuffer B) : Option (WrBuffer B) :=
  if wrb.seqno < ackno then
    let lastseq := wrb.seqno + BitVec.ofNat 32 wrb.data.length
    if lastseq ≤ ackno then none else some (wrb.trim ackno)
  else some wrb

/-- The head of `write_q` when an acknowledgment arrives: it may be sent in part. -/
def ackHead (ackno : Seq) : List (WrBuffer B) → List (WrBuffer B)
  | [] => []
  | wrb :: rest =>
    (if 0 < wrb.sent ∧ wrb.seqno < ackno then wrb.trim ackno else wrb) :: rest

/-- `psock_send_eventhandler` on `TCP_ACKDATA`. -/
def ackBuffers (conn : Conn B) (ackno : Seq) : Conn B :=
  { conn with
    unackedQ := conn.unackedQ.filterMap (WrBuffer.acked ackno)
    writeQ := ackHead ackno conn.writeQ }

/-- Take the bytes sent from a buffer off a counter of the connection, which stops at zero. -/
def takeOff (count : Seq) (sent : ℕ) : Seq :=
  if BitVec.ofNat 32 sent < count then count - BitVec.ofNat 32 sent else 0

/-- Nothing of the buffer counts as sent any more. -/
def takeBack (conn : Conn B) (wrb : WrBuffer B) : Conn B :=
  { conn with txUnacked := takeOff conn.txUnacked wrb.sent, sent := takeOff conn.sent wrb.sent }

/-- The buffer is to be sent once more. -/
def WrBuffer.again (wrb : WrBuffer B) : WrBuffer B := { wrb with sent := 0, nrtx := wrb.nrtx + 1 }

/-- The head of `write_q` on a retransmission, if something of it has been sent. -/
def rexmitHead (conn : Conn B) : Conn B :=
  match conn.writeQ with
  | [] => conn
  | wrb :: rest =>
    if 0 < wrb.sent then
      if maxRtx ≤ wrb.nrtx + 1 then
        { takeBack conn wrb with writeQ := rest, expired := conn.expired + 1 }
      else { takeBack conn wrb with writeQ := wrb.again :: rest }
    else conn

/-- One buffer of `unacked_q` on a retransmission: back to `write_q`, or expired. -/
def requeue (wrb : WrBuffer B) (conn : Conn B) : Conn B :=
  if maxRtx ≤ wrb.nrtx + 1 then { takeBack conn wrb with expired := conn.expired + 1 }
  else { takeBack conn wrb with writeQ := insertSegment wrb.again conn.writeQ }

/-- `psock_send_eventhandler` on `TCP_REXMIT`: the last of `unacked_q` comes first. -/
def rexmitBuffers (conn : Conn B) : Conn B :=
  conn.unackedQ.foldr requeue { rexmitHead conn with unackedQ := [] }

/-- The bytes of the next segment from a write buffer. -/
def WrBuffer.sndlen (wrb : WrBuffer B) (mss winsize : ℕ) : ℕ :=
  min (min (wrb.data.length - wrb.sent) mss) winsize

/-- The number of the first byte of a buffer, which is new if it has none. -/
def WrBuffer.numbered (wrb : WrBuffer B) (conn : Conn B) : Seq :=
  if wrb.seqno = unassigned then conn.isn + conn.sent else wrb.seqno

/-- Send from the head of `write_q`, which goes to `unacked_q` when all of it has been sent. -/
def sendHead (conn : Conn B) (wrb : WrBuffer B) (rest : List (WrBuffer B)) : Conn B × List B :=
  let sndlen := wrb.sndlen conn.mss conn.winsize
  let seqno := wrb.numbered conn
  let sndseq := seqno + BitVec.ofNat 32 wrb.sent
  let predicted := sndseq + BitVec.ofNat 32 sndlen
  let wrb' := { wrb with seqno, sent := wrb.sent + sndlen }
  let conn' := { conn with
    sndseq
    txUnacked := conn.txUnacked + BitVec.ofNat 32 sndlen
    sent := conn.sent + BitVec.ofNat 32 sndlen
    sndseqMax :=
      if conn.sndseqMax < predicted ∨ predicted < sndseq then predicted else conn.sndseqMax }
  let data := (wrb.data.drop wrb.sent).take sndlen
  if wrb.data.length ≤ wrb'.sent then
    ({ conn' with writeQ := rest, unackedQ := insertSegment wrb' conn.unackedQ }, data)
  else ({ conn' with writeQ := wrb' :: rest }, data)

/-- `psock_send_eventhandler` sends on a poll or a retransmission if there is something to send and
the window is open. -/
def transmit (conn : Conn B) (flags : Flags) : Conn B × Flags × List B :=
  if conn.state.hasEstablished ∧ (flags.poll ∨ flags.rexmit) ∧ 0 < conn.winsize then
    match conn.writeQ with
    | [] => (conn, flags, [])
    | wrb :: rest =>
      let (conn', data) := sendHead conn wrb rest
      (conn', { flags with poll := false }, data)
  else (conn, flags, [])

/-- `psock_lost_connection`: the callback is disabled if the socket still refers to it. -/
def lostConnection (conn : Conn B) : Conn B :=
  { conn with
    sndcb := !conn.sndcbOwned, unackedQ := [], writeQ := [], sent := 0, sndseqMax := 0 }

/-! ## Callbacks -/

/-- `psock_send_eventhandler`: the connection, the events and the bytes to send after it. -/
def sendEventhandler (conn : Conn B) (flags : Flags) (ackno : Seq) : Conn B × Flags × List B :=
  if ¬ conn.sndcb then (conn, flags, [])
  else if flags.ackdata then transmit (ackBuffers conn ackno) flags
  else if flags.disconn then (lostConnection conn, flags, [])
  else if flags.rexmit then transmit (rexmitBuffers conn) flags
  else transmit conn flags

/-- `tcp_datahandler`: all of the data goes to the read-ahead queue, or nothing. -/
def datahandler (env : Env) (conn : Conn B) (data : List B) : Conn B × Bool :=
  if env.room then ({ conn with readahead := conn.readahead ++ [data] }, true) else (conn, false)

/-- `tcp_newdata`: as much as fits to the user's buffer, the rest to the read-ahead queue. Whether
the rest could be kept is not looked at. -/
def newdata (env : Env) (conn : Conn B) (buflen : ℕ) (data : List B) : Conn B :=
  let recvlen := min buflen data.length
  let conn := { conn with received := conn.received ++ data.take recvlen }
  if recvlen < data.length then (datahandler env conn (data.drop recvlen)).1 else conn

/-- `tcp_eventhandler` of `psock_tcp_recvfrom`: the connection, the events and the data left. -/
def recvEventhandler (env : Env) (conn : Conn B) (flags : Flags) (data : List B) :
    Conn B × Flags × List B :=
  match conn.receiver with
  | none => (conn, flags, data)
  | some buflen =>
    if flags.newdata then
      let conn := newdata env conn buflen data
      -- any data ends the wait
      let conn := if 0 < min buflen data.length then { conn with receiver := none } else conn
      (conn, { flags with newdata := false, sndack := true }, [])
    else (conn, flags, data)

/-- `tcp_close_eventhandler`: received data is dropped; once all that was sent is acknowledged, the
connection is to be closed. -/
def closeEventhandler (conn : Conn B) (flags : Flags) (data : List B) : Conn B × Flags × List B :=
  if ¬ conn.closing then (conn, flags, data)
  else if flags.disconn then ({ conn with closing := false }, flags, data)
  else if ¬ (flags.newdata ∨ flags.poll) then (conn, flags, data)
  else if conn.txUnacked ≠ 0 ∨ conn.writeQ ≠ [] then (conn, { flags with newdata := false }, [])
  else (conn, { flags with newdata := false, close := true }, [])

/-- `tcp_data_event`: data that no thread waited for is kept or, without an answer, dropped. -/
def dataEvent (env : Env) (conn : Conn B) (flags : Flags) (data : List B) : Conn B × Flags :=
  let flags := { flags with newdata := false, sndack := true }
  if data = [] then (conn, flags)
  else
    let (conn, saved) := datahandler env conn data
    (conn, { flags with sndack := saved })

/-- The callbacks of receiver and sender, then `tcp_data_event`. -/
def deliver (env : Env) (conn : Conn B) (flags : Flags) (ackno : Seq) (data : List B) :
    Conn B × Flags × List B :=
  let (conn, flags, data) := recvEventhandler env conn flags data
  let (conn, flags, snd) := sendEventhandler conn flags ackno
  if flags.newdata then
    let (conn, flags) := dataEvent env conn flags data
    (conn, flags, snd)
  else (conn, flags, snd)

/-- `tcp_callback`: a pending close has the newest callback, which comes first. -/
def callback (env : Env) (conn : Conn B) (flags : Flags) (ackno : Seq) (data : List B) :
    Conn B × Flags × List B :=
  let (conn, flags, data) := closeEventhandler conn flags data
  deliver env conn flags ackno data

/-! ## Changes of the connection -/

/-- A new state, which clears `TCP_STOPPED`. -/
def Conn.enter (conn : Conn B) (state : State) : Conn B := { conn with state, stopped := false }

/-- `net_incr32` on `rcvseq`. -/
def Conn.advance (conn : Conn B) (len : ℕ) : Conn B :=
  { conn with rcvseq := conn.rcvseq + BitVec.ofNat 32 len }

/-- Our FIN is sent. -/
def Conn.finish (conn : Conn B) (state : State) : Conn B :=
  { conn.enter state with
    txUnacked := 1, nrtx := 0, sndseqMax := conn.sndseq + 1, ctlseq := conn.sndseq }

@[simp] theorem Conn.enter_state (conn : Conn B) (state : State) :
    (conn.enter state).state = state := rfl

@[simp] theorem Conn.advance_state (conn : Conn B) (len : ℕ) :
    (conn.advance len).state = conn.state := rfl

@[simp] theorem Conn.finish_state (conn : Conn B) (state : State) :
    (conn.finish state).state = state := rfl

/-! ## Answers -/

/-- `tcp_send`: a segment with the numbers of the connection. -/
def output (conn : Conn B) (ctl : Ctl) (data : List B) : Output B :=
  { ctl, seqno := conn.sndseq, ackno := conn.rcvseq, data }

/-- `tcp_rexmit`. -/
def rexmit (conn : Conn B) (result : Flags) (snd : List B) : List (Output B) :=
  if snd ≠ [] then [output conn { ack := true, psh := true } snd]
  else if result.sndack then [output conn { ack := true } []]
  else []

/-- `tcp_appsend`. -/
def appsend (conn : Conn B) (result : Flags) (snd : List B) : Conn B × List (Output B) :=
  if result.abort then
    (conn.enter .closed, [output conn { rst := true, ack := true } []])
  else if result.close then
    (conn.finish .finWait1, [output conn { fin := true, ack := true } []])
  else (conn, rexmit conn result snd)

/-- A callback and the answer that it asks for. -/
def respond (env : Env) (conn : Conn B) (flags : Flags) (ackno : Seq) (data : List B) :
    Conn B × List (Output B) :=
  let (conn, result, snd) := callback env conn flags ackno data
  appsend conn result snd

/-! ## Input -/

/-- The sequence number behind everything that is outstanding. -/
def unackseq (cfg : Config) (conn : Conn B) : Seq :=
  if cfg.writeBuffers then conn.sndseqMax else conn.sndseq + conn.txUnacked

/-- The part of `tcp_input` that looks at the acknowledgment number; the second component is
`TCP_ACKDATA`. -/
def acknowledge (cfg : Config) (conn : Conn B) (seg : Segment B) : Conn B × Bool :=
  if seg.ctl.ack ∧ 0 < conn.txUnacked then
    let txUnacked :=
      if seg.ackno ≤ unackseq cfg conn then cfg.unackedCount (unackseq cfg conn - seg.ackno)
      else if conn.state = .established then 0
      else conn.txUnacked
    ({ conn with txUnacked, sndseq := seg.ackno }, true)
  else (conn, false)

/-- The segment has the expected number, or one that is not looked at. -/
def inSequence (conn : Conn B) (seg : Segment B) : Prop :=
  (conn.state = .synSent ∧ seg.ctl = { syn := true, ack := true }) ∨
  (conn.state = .synRcvd ∧ seg.ctl = { syn := true }) ∨
  (seg.data = [] ∧ ¬ seg.ctl.syn ∧ ¬ seg.ctl.fin) ∨ seg.seqno = conn.rcvseq

instance (conn : Conn B) (seg : Segment B) : Decidable (inSequence conn seg) :=
  inferInstanceAs (Decidable (_ ∨ _ ∨ _ ∨ _))

/-- A keep-alive probe, answered without looking further. -/
def isProbe (cfg : Config) (conn : Conn B) (seg : Segment B) : Bool :=
  cfg.keepalive && seg.ctl.ack && !seg.ctl.syn && !seg.ctl.fin && !seg.ctl.rst &&
    conn.state = .established && seg.data.length ≤ 1 && conn.txUnacked = 0 &&
    decide (seg.seqno < conn.rcvseq)

/-- `tcp_reset`: the numbers of the segment are exchanged, and its length is acknowledged. -/
def reset (seg : Segment B) : Output B where
  ctl := { rst := true, ack := true }
  seqno := seg.ackno
  ackno := seg.seqno + BitVec.ofNat 32 (seg.data.length + (seg.ctl.syn || seg.ctl.fin).toNat)
  data := []

/-- The connection is established by the last segment of the handshake. -/
def Conn.accepted (cfg : Config) (conn : Conn B) (seg : Segment B) : Conn B :=
  let conn := { conn.enter .established with txUnacked := 0 }
  if cfg.writeBuffers then
    { conn with isn := seg.ackno, sndseq := seg.ackno, sent := 0, sndseqMax := 0 }
  else conn

/-- The connection is established by the SYN of the peer. -/
def Conn.connected (cfg : Config) (conn : Conn B) (seg : Segment B) : Conn B :=
  let conn := { conn.enter .established with
    mss := seg.mss.getD conn.mss, rcvseq := seg.seqno + 1, txUnacked := 0 }
  if cfg.writeBuffers then { conn with isn := seg.ackno, sndseq := seg.ackno } else conn

/-- `TCP_SYN_RCVD`: any acknowledgment completes the handshake; a SYN is answered again. -/
def inputSynRcvd (cfg : Config) (env : Env) (conn : Conn B) (acked : Bool) (seg : Segment B) :
    Conn B × List (Output B) :=
  if acked then
    -- without a listener the connection is freed and the peer reset
    if ¬ env.accepts then (conn.enter .closed, [reset seg])
    else if seg.data = [] then
      respond env (conn.accepted cfg seg) { connected := true } seg.ackno []
    else
      respond env ((conn.accepted cfg seg).advance seg.data.length)
        { connected := true, newdata := true } seg.ackno seg.data
  else if seg.ctl = { syn := true } then
    (conn, [output conn { syn := true, ack := true } []])
  else (conn, [])

/-- `TCP_SYN_SENT`: anything but a SYN with an acknowledgment ends the attempt. -/
def inputSynSent (cfg : Config) (env : Env) (conn : Conn B) (acked : Bool) (seg : Segment B) :
    Conn B × List (Output B) :=
  if acked ∧ seg.ctl = { syn := true, ack := true } then
    respond env (conn.connected cfg seg) { connected := true, newdata := true } seg.ackno []
  else ((callback env conn { abort := true } seg.ackno seg.data).1.enter .closed, [reset seg])

/-- `TCP_ESTABLISHED` with a FIN: the data is passed on and we send our own FIN. -/
def inputFin (env : Env) (conn : Conn B) (acked : Bool) (seg : Segment B) :
    Conn B × List (Output B) :=
  let flags : Flags := { ackdata := acked, close := true, newdata := !seg.data.isEmpty }
  let conn := (callback env (conn.advance (seg.data.length + 1)) flags seg.ackno seg.data).1
  (conn.finish .lastAck, [output conn { fin := true, ack := true } []])

/-- The length of the urgent data, which stands first. -/
def urglen (seg : Segment B) : ℕ := if seg.ctl.urg then min seg.urgp seg.data.length else 0

/-- `TCP_ESTABLISHED` without a FIN: urgent data is skipped, the rest passed on; `rcvseq` goes on
if the result says so. -/
def inputData (env : Env) (conn : Conn B) (acked : Bool) (seg : Segment B) :
    Conn B × List (Output B) :=
  let conn := conn.advance (urglen seg)
  let data := seg.data.drop (urglen seg)
  let fresh := !data.isEmpty && !conn.stopped
  if fresh || acked then
    let (conn, result, snd) :=
      callback env conn { ackdata := acked, newdata := fresh } seg.ackno data
    appsend (if result.sndack then conn.advance data.length else conn) result snd
  else (conn, [])

/-- `TCP_FIN_WAIT_1`: data is acknowledged and dropped. -/
def inputFinWait1 (env : Env) (conn : Conn B) (acked : Bool) (seg : Segment B) :
    Conn B × List (Output B) :=
  let conn := conn.advance seg.data.length
  if seg.ctl.fin then
    let state := if acked ∧ conn.txUnacked = 0 then State.timeWait else State.closing
    let conn := (conn.enter state).advance 1
    let conn := (callback env conn { close := true } seg.ackno seg.data).1
    (conn, [output conn { ack := true } []])
  else if acked ∧ conn.txUnacked = 0 then
    (conn.enter .finWait2, [])
  else if seg.data ≠ [] then (conn, [output conn { ack := true } []])
  else (conn, [])

/-- `TCP_FIN_WAIT_2`: data is acknowledged and dropped. -/
def inputFinWait2 (env : Env) (conn : Conn B) (seg : Segment B) : Conn B × List (Output B) :=
  let conn := conn.advance seg.data.length
  if seg.ctl.fin then
    let conn := (conn.enter .timeWait).advance 1
    let conn := (callback env conn { close := true } seg.ackno seg.data).1
    (conn, [output conn { ack := true } []])
  else if seg.data ≠ [] then (conn, [output conn { ack := true } []])
  else (conn, [])

/-- `tcp_input` by the state of the connection. -/
def inputState (cfg : Config) (env : Env) (conn : Conn B) (acked : Bool) (seg : Segment B) :
    Conn B × List (Output B) :=
  match conn.state with
  | .synRcvd => inputSynRcvd cfg env conn acked seg
  | .synSent => inputSynSent cfg env conn acked seg
  | .established =>
    if seg.ctl.fin ∧ ¬ conn.stopped then inputFin env conn acked seg
    else inputData env conn acked seg
  | .lastAck =>
    if acked then
      ((callback env (conn.enter .closed) { close := true } seg.ackno seg.data).1, [])
    else (conn, [])
  | .finWait1 => inputFinWait1 env conn acked seg
  | .finWait2 => inputFinWait2 env conn seg
  | .timeWait => (conn, [output conn { ack := true } []])
  | .closing =>
    if acked then (conn.enter .timeWait, []) else (conn, [])
  | .closed | .allocated => (conn, [])

/-- `tcp_input` from the label `found` on: the search for the connection, and the options of a SYN
that makes a new one, come before. -/
def input (cfg : Config) (env : Env) (conn : Conn B) (seg : Segment B) : Conn B × List (Output B) :=
  let conn := { conn with winsize := seg.wnd }
  if seg.ctl.rst then
    if conn.state = .synRcvd then (conn.enter .closed, [])
    else ((callback env (conn.enter .closed) { abort := true } seg.ackno seg.data).1, [])
  else if isProbe cfg conn seg ∨ ¬ inSequence conn seg then
    (conn, [output conn { ack := true } []])
  else
    let (conn, acked) := acknowledge cfg conn seg
    inputState cfg env conn acked seg

/-! ## Polls, timeouts and calls -/

/-- `tcp_poll`. -/
def poll (env : Env) (conn : Conn B) : Conn B × List (Output B) :=
  if conn.state = .established then respond env conn { poll := true } 0 [] else (conn, [])

/-- Too much was retransmitted: a write buffer or, without them, the connection's segment. -/
def Conn.givesUp (cfg : Config) (conn : Conn B) : Bool :=
  if cfg.writeBuffers then 0 < conn.expired else maxRtx ≤ conn.nrtx

/-- `tcp_timer` when the timer expires. -/
def timeout (cfg : Config) (env : Env) (conn : Conn B) : Conn B × List (Output B) :=
  let timedOut := (callback env (conn.enter .closed) { timedout := true } 0 []).1
  if (conn.state = .timeWait ∨ conn.state = .finWait2) ∧ ¬ conn.stopped then (timedOut, [])
  else if conn.state = .closed ∨ conn.txUnacked = 0 then (conn, [])
  else if conn.state = .synRcvd ∧ maxSynRtx ≤ conn.nrtx then
    (conn.enter .closed, [output conn { rst := true, ack := true } []])
  else if conn.givesUp cfg ∨ conn.state = .synSent ∧ maxSynRtx ≤ conn.nrtx then
    (timedOut, [output timedOut { rst := true, ack := true } []])
  else
    let conn := { conn with nrtx := conn.nrtx + 1 }
    match conn.state with
    | .synRcvd => (conn, [output conn { syn := true, ack := true } []])
    | .synSent => (conn, [output conn { syn := true } []])
    | .established =>
      let (conn, result, snd) := callback env conn { rexmit := true } 0 []
      (conn, rexmit conn result snd)
    | .finWait1 | .closing | .lastAck => (conn, [output conn { fin := true, ack := true } []])
    | _ => (conn, [])

/-- `tcp_timer` on an idle connection with keep-alive: a byte with a number that was acknowledged
before is sent, and counted like a new one. -/
def probe (cfg : Config) (conn : Conn B) (garbage : B) : Conn B × List (Output B) :=
  if cfg.keepalive ∧ conn.state = .established ∧ conn.txUnacked = 0 then
    ({ conn with txUnacked := conn.txUnacked + 1, sndseqMax := conn.sndseqMax + 1 },
      [{ output conn { ack := true } [garbage] with seqno := conn.sndseq - 1 }])
  else (conn, [])

/-- `psock_tcp_send` on a connected socket: the bytes that were copied, fewer than 2 ^ 16, go to a
write buffer at the end of `write_q`. -/
def send (conn : Conn B) (data : List B) : Conn B :=
  if conn.state = .established ∧ data ≠ [] then
    { conn with
      sndcb := true
      sndcbOwned := true
      writeQ := conn.writeQ ++ [{ seqno := unassigned, sent := 0, nrtx := 0, data }] }
  else conn

/-- `tcp_readahead`: as much of the read-ahead queue as fits into a buffer, and the rest. -/
def readahead (buflen : ℕ) : List (List B) → List B × List (List B)
  | [] => ([], [])
  | chain :: rest =>
    if buflen = 0 then ([], chain :: rest)
    else if chain.length ≤ buflen then
      let (bytes, rest) := readahead (buflen - chain.length) rest
      (chain ++ bytes, rest)
    else (chain.take buflen, chain.drop buflen :: rest)

/-- `psock_tcp_recvfrom`: what was read ahead, or a wait. -/
def recvfrom (conn : Conn B) (buflen : ℕ) : Conn B :=
  let (bytes, rest) := readahead buflen conn.readahead
  let conn := { conn with received := conn.received ++ bytes, readahead := rest }
  if bytes = [] ∧ 0 < buflen then { conn with receiver := some buflen } else conn

/-- The wait of `psock_tcp_recvfrom` ends without data. -/
def stopWaiting (conn : Conn B) : Conn B := { conn with receiver := none }

/-- `tcp_close_disconnect`: the socket gives up the callback, and a connection that is established
is to be closed by the next event. -/
def close (conn : Conn B) : Conn B :=
  { conn with
    sndcbOwned := false
    closing := conn.closing || (decide (conn.state = .established) && !conn.stopped) }

/-- The connection made by `tcp_connect`, with our initial sequence number. -/
def connect (iss : Seq) (mss : ℕ) : Conn B where
  state := .synSent
  stopped := false
  rcvseq := 0
  sndseq := iss
  nrtx := 0
  mss := mss
  winsize := 0
  txUnacked := 1
  readahead := []
  writeQ := []
  unackedQ := []
  expired := 0
  sent := 0
  isn := 0
  sndseqMax := 0
  sndcb := false
  sndcbOwned := false
  receiver := none
  closing := false
  received := []
  ctlseq := iss

/-- The connection made by `tcp_alloc_accept` for a SYN with the peer's sequence number. -/
def allocAccept (iss irs : Seq) (mss : ℕ) : Conn B :=
  { connect iss mss with state := .synRcvd, rcvseq := irs + 1 }

/-! ## Runs -/

/-- What happens to a connection. -/
inductive Event (B : Type) where
  | input (env : Env) (seg : Segment B)
  | poll (env : Env)
  | timeout (env : Env)
  | send (data : List B)
  | recvfrom (buflen : ℕ)
  | stopWaiting
  | close

/-- One event, and the segments that are sent. -/
def step (cfg : Config) (conn : Conn B) : Event B → Conn B × List (Output B)
  | .input env seg => input cfg env conn seg
  | .poll env => poll env conn
  | .timeout env => timeout cfg env conn
  | .send data => (send conn data, [])
  | .recvfrom buflen => (recvfrom conn buflen, [])
  | .stopWaiting => (stopWaiting conn, [])
  | .close => (close conn, [])

/-- The states of a connection from its beginning on. Without write buffers the threads that send
may leave any numbers behind. -/
inductive Reachable (cfg : Config) : Conn B → Prop
  | connect (iss : Seq) (mss : ℕ) : Reachable cfg (connect iss mss)
  | accept (iss irs : Seq) (mss : ℕ) : Reachable cfg (allocAccept iss irs mss)
  | step {conn : Conn B} (before : Reachable cfg conn) (event : Event B) :
      Reachable cfg (step cfg conn event).1
  | probe {conn : Conn B} (before : Reachable cfg conn) (garbage : B) :
      Reachable cfg (probe cfg conn garbage).1
  | unbuffered {conn : Conn B} (before : Reachable cfg conn) (off : cfg.writeBuffers = false)
      (sndseq txUnacked : Seq) (nrtx : ℕ) : Reachable cfg { conn with sndseq, txUnacked, nrtx }

end NuttxRtos.Tcp
