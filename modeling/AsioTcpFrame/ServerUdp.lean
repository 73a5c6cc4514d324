import AsioTcpFrame.Lib.Transition
import AsioTcpFrame.Lib.Window
import AsioTcpFrame.Packet

/-! # Datagrams

`ClientUDP::write` (for a host and a port, and for an endpoint) and `ServerUDP::write` put the header
data and the payload into one datagram.  `ServerUDP` takes it apart again.  It has one buffer and one
endpoint, which every `async_receive_from` fills; the handler calls `onMessage` and starts the next
receive, on every branch.

So one receive is outstanding or one handler is running, never both (`Loop`), and what `onMessage` is
shown is what the last receive has brought.  But the handler asks for more than `HD_LEN` bytes, and
drops a datagram of exactly that length, which is a packet without payload.  `reported_iff`: the calls
of `onMessage` are the datagrams that hold a header, in their order, exactly when none that was
handled had nothing but the header. -/

namespace AsioTcpFrame

open Transition Window

variable {ε : Type}

/-- A datagram from, or for, an endpoint. -/
structure Datagram (ε : Type) where
  endpoint : ε
  bytes : List Byte
deriving DecidableEq

/-- What the three `write`s put into `buf`, as much of it as they give to `async_send_to`. -/
def packet (hdLen : ℕ) (head payload : List Byte) : List Byte :=
  (pack hdLen head payload).2.take (pack hdLen head payload).1

namespace ClientUDP

/-- `ClientUDP::write` for an endpoint. -/
def write (cfg : Config) (endpoint : ε) (head payload : List Byte) : Datagram ε :=
  ⟨endpoint, packet cfg.hdLen head payload⟩

/-- `ClientUDP::write` for a host and a port.  `fromString` is the endpoint of the two, which is
there unless `address::from_string` throws. -/
def writeIp (cfg : Config) (fromString : String → ℕ → Option ε) (ip : String) (port : ℕ)
    (head payload : List Byte) : Option (Datagram ε) :=
  (fromString ip port).map fun endpoint => ⟨endpoint, packet cfg.hdLen head payload⟩

end ClientUDP

/-- What the handler of a receive is given: the error, if any, and `bytes_recvd`. -/
structure Received where
  ec : Option ErrorCode
  bytesRecvd : ℕ
deriving DecidableEq

/-- Where a receive handler is: at its beginning, or in `onMessage`. -/
inductive UdpStage where
  | called (r : Received)
  | showing
deriving DecidableEq

/-- The completion that the handler has still to look at. -/
def UdpStage.received : UdpStage → Option Received
  | .called r => some r
  | .showing => none

/-- A call of `onMessage`, with the bytes that are at `content` then. -/
structure UdpMessage (ε : Type) where
  remoteAddr : ε
  head : List Byte
  length : ℕ
  content : List Byte
deriving DecidableEq

structure ServerUDP (ε : Type) where
  receiveBuf : List Byte
  senderEndpoint : ε
  /-- The outstanding `async_receive_from`s, and what they were completed with. -/
  receives : List (Option Received)
  running : List UdpStage
  messages : List (UdpMessage ε)
  /-- The outstanding `async_send_to`s. -/
  sends : List (Datagram ε)
  errors : List String
deriving DecidableEq

/-- A datagram arrives; a receive fails; the handler of a completed receive is called; a handler goes
on; `write`; a send completes. -/
inductive ServerUDPAct (ε : Type) where
  | datagram (d : Datagram ε)
  | fail (ec : ErrorCode) (len : ℕ)
  | invoke
  | run (i : ℕ)
  | write (remoteAddr : ε) (head payload : List Byte)
  | sendDone (ec : Option ErrorCode)
deriving DecidableEq

namespace ServerUDP

/-- `BUF_LEN`. -/
def bufLen : ℕ := 65536

/-- `do_receive`. -/
def doReceive (n : ServerUDP ε) : ServerUDP ε := { n with receives := n.receives ++ [none] }

/-- The constructor. -/
def create [Inhabited ε] : ServerUDP ε :=
  doReceive ⟨List.replicate bufLen 0, default, [], [], [], [], []⟩

/-- `ServerUDP::write`. -/
def write (cfg : Config) (n : ServerUDP ε) (remoteAddr : ε) (head payload : List Byte) :
    ServerUDP ε :=
  { n with sends := n.sends ++ [⟨remoteAddr, packet cfg.hdLen head payload⟩] }

/-- The arguments of `onMessage`. -/
def message (cfg : Config) (n : ServerUDP ε) (bytesRecvd : ℕ) : UdpMessage ε where
  remoteAddr := n.senderEndpoint
  head := window n.receiveBuf 0 cfg.hdLen
  length := bytesRecvd - cfg.hdLen
  content := window n.receiveBuf cfg.hdLen (bytesRecvd - cfg.hdLen)

/-- The handler of a receive, up to `onMessage`, or to its end. -/
def handler (cfg : Config) (cb : Callbacks) (n : ServerUDP ε) (i : ℕ) (r : Received) : ServerUDP ε :=
  if r.ec = none ∧ cfg.hdLen < r.bytesRecvd ∧ cb.onMessage = true then
    { n with
      messages := n.messages ++ [n.message cfg r.bytesRecvd]
      running := n.running.set i .showing }
  else doReceive { n with running := n.running.eraseIdx i }

/-- `_error`, when there is one. -/
def error (cb : Callbacks) : Option ErrorCode → List String
  | some ec => if cb.onError then [ec.message] else []
  | none => []

def step (cfg : Config) (cb : Callbacks) (n : ServerUDP ε) : ServerUDPAct ε → Option (ServerUDP ε)
  | .datagram d =>
      match n.receives with
      | none :: rest =>
          if d.bytes.length ≤ bufLen then
            some { n with
              receiveBuf := overwrite n.receiveBuf 0 d.bytes
              senderEndpoint := d.endpoint
              receives := some ⟨none, d.bytes.length⟩ :: rest }
          else none
      | _ => none
  | .fail ec len =>
      match n.receives with
      | none :: rest => some { n with receives := some ⟨some ec, len⟩ :: rest }
      | _ => none
  | .invoke =>
      match n.receives with
      | some r :: rest => some { n with receives := rest, running := n.running ++ [.called r] }
      | _ => none
  | .run i =>
      match n.running[i]? with
      | some (.called r) => some (n.handler cfg cb i r)
      | some .showing => some (doReceive { n with running := n.running.eraseIdx i })
      | none => none
  | .write remoteAddr head payload => some (n.write cfg remoteAddr head payload)
  | .sendDone ec =>
      match n.sends with
      | _ :: rest => some { n with sends := rest, errors := n.errors ++ error cb ec }
      | [] => none

/-! ### What should be reported -/

/-- The datagrams that arrived, in their order. -/
def arrivals (acts : List (ServerUDPAct ε)) : List (Datagram ε) :=
  acts.filterMap fun
    | .datagram d => some d
    | _ => none

/-- A datagram with its header taken off. -/
def split (hdLen : ℕ) (d : Datagram ε) : UdpMessage ε :=
  ⟨d.endpoint, d.bytes.take hdLen, d.bytes.length - hdLen, d.bytes.drop hdLen⟩

/-- The `onMessage` that a datagram should lead to: one when it holds a header. -/
def expected (hdLen : ℕ) (d : Datagram ε) : Option (UdpMessage ε) :=
  if hdLen ≤ d.bytes.length then some (split hdLen d) else none

/-- The one that it leads to. -/
def shown (hdLen : ℕ) (d : Datagram ε) : Option (UdpMessage ε) :=
  if hdLen < d.bytes.length then some (split hdLen d) else none

/-- The completed receives that were not looked at yet. -/
def pending (n : ServerUDP ε) : List Received :=
  n.receives.filterMap id ++ n.running.filterMap UdpStage.received

/-- What `receive_buf` holds of a completed receive. -/
def held (n : ServerUDP ε) (r : Received) : Option (Datagram ε) :=
  if r.ec = none then some ⟨n.senderEndpoint, window n.receiveBuf 0 r.bytesRecvd⟩ else none

/-- The datagrams that have arrived and were not looked at yet. -/
def inFlight (n : ServerUDP ε) : List (Datagram ε) := n.pending.filterMap n.held

/-- The datagrams that a handler has looked at. -/
def handled (acts : List (ServerUDPAct ε)) (n : ServerUDP ε) : List (Datagram ε) :=
  (arrivals acts).take ((arrivals acts).length - n.inFlight.length)

/-- The bytes of a datagram that one of the three `write`s has built. -/
inductive Built (ε : Type) (cfg : Config) (head payload : List Byte) : List Byte → Prop
  | clientIp {fromString : String → ℕ → Option ε} {ip : String} {port : ℕ} {d : Datagram ε} :
      ClientUDP.writeIp cfg fromString ip port head payload = some d →
        Built ε cfg head payload d.bytes
  | client (endpoint : ε) : Built ε cfg head payload (ClientUDP.write cfg endpoint head payload).bytes
  | server {n : ServerUDP ε} {remoteAddr : ε} {d : Datagram ε} :
      (n.write cfg remoteAddr head payload).sends = n.sends ++ [d] →
        Built ε cfg head payload d.bytes

/-- The calls of `onMessage` are the datagrams that hold a header, as they came; and what a `write`
has built comes out as it went in. -/
structure Reported (cfg : Config) (acts : List (ServerUDPAct ε)) (n : ServerUDP ε) : Prop where
  exact : n.messages = (handled acts n).filterMap (expected cfg.hdLen)
  roundTrip : ∀ endpoint head payload bytes, head.length = cfg.hdLen →
    cfg.hdLen + payload.length ≤ bufLen → Built ε cfg head payload bytes →
      ⟨endpoint, bytes⟩ ∈ handled acts n → ⟨endpoint, head, payload.length, payload⟩ ∈ n.messages

/-! ### Datagrams and packets -/

section
variable {cfg : Config} {hdLen : ℕ} {head payload : List Byte}

theorem packet_append (hhead : head.length = hdLen) (hlt : payload.length + hdLen < 2 ^ 64) :
    packet hdLen head payload = head ++ payload := by
  have hsize : toSize (payload.length + hdLen) = payload.length + hdLen :=
    toSize_natCast (n := payload.length + hdLen) hlt
  simp only [packet, pack, hsize]
  exact List.take_of_length_le (by simp; omega)

theorem packet_eq (hhead : head.length = hdLen) (hle : hdLen + payload.length ≤ bufLen) :
    packet hdLen head payload = head ++ payload :=
  packet_append hhead (lt_of_le_of_lt (by omega) (by decide : bufLen < 2 ^ 64))

theorem Built.bytes_eq {bytes : List Byte} (h : Built ε cfg head payload bytes) :
    bytes = packet cfg.hdLen head payload := by
  cases h with
  | clientIp hd =>
      obtain ⟨endpoint, -, rfl⟩ := Option.map_eq_some_iff.mp hd
      rfl
  | client endpoint => rfl
  | server hd =>
      obtain rfl := List.singleton_inj.mp (List.append_cancel_left hd)
      rfl

theorem expected_packet (endpoint : ε) (hhead : head.length = hdLen) :
    expected hdLen ⟨endpoint, head ++ payload⟩ = some ⟨endpoint, head, payload.length, payload⟩ := by
  subst hhead
  simp [expected, split]

/-- Each datagram that is just a header is one call of `onMessage` too few. -/
theorem length_expected (hdLen : ℕ) (l : List (Datagram ε)) :
    (l.filterMap (expected hdLen)).length =
      (l.filterMap (shown hdLen)).length + l.countP fun d => d.bytes.length = hdLen := by
  induction l with
  | nil => rfl
  | cons d l ih =>
      rcases lt_trichotomy hdLen d.bytes.length with hlt | heq | hgt
      · have hne : d.bytes.length ≠ hdLen := hlt.ne'
        simp only [List.filterMap_cons, expected, shown, hlt.le, hlt, if_true, List.length_cons,
          ih, List.countP_cons, decide_eq_false hne, Bool.false_eq_true, if_false]
        omega
      · subst heq
        simp only [List.filterMap_cons, expected, shown, le_refl, lt_irrefl, if_true, if_false,
          List.length_cons, ih, List.countP_cons, decide_true]
        omega
      · have hne : d.bytes.length ≠ hdLen := hgt.ne
        simp only [List.filterMap_cons, expected, shown, hgt.not_ge, hgt.not_gt, if_false, ih,
          List.countP_cons, decide_eq_false hne, Bool.false_eq_true, Nat.add_zero]

theorem shown_eq_expected_iff (l : List (Datagram ε)) :
    l.filterMap (shown hdLen) = l.filterMap (expected hdLen) ↔ ∀ d ∈ l, d.bytes.length ≠ hdLen := by
  constructor
  · intro heq
    have hlen := length_expected hdLen l
    rw [← heq] at hlen
    have hzero : (l.countP fun d => decide (d.bytes.length = hdLen)) = 0 := by omega
    simpa using List.countP_eq_zero.mp hzero
  · intro hne
    apply List.filterMap_congr
    intro d hd
    have hd := hne d hd
    simp only [shown, expected]
    split <;> split <;> first | rfl | omega

end

/-! ### The loop -/

variable {cfg : Config} {cb : Callbacks} {n n' : ServerUDP ε} {a : ServerUDPAct ε}
  {acts : List (ServerUDPAct ε)}

/-- One receive is outstanding, or one handler is running. -/
inductive Loop (n : ServerUDP ε) : Prop
  | waiting : n.receives = [none] → n.running = [] → Loop n
  | done (r : Received) : n.receives = [some r] → n.running = [] → Loop n
  | called (r : Received) : n.receives = [] → n.running = [.called r] → Loop n
  | showing : n.receives = [] → n.running = [.showing] → Loop n

/-- What the loop has reported, and what it has still to look at. -/
structure Inv (cfg : Config) (acts : List (ServerUDPAct ε)) (n : ServerUDP ε) : Prop where
  loop : n.Loop
  buf : n.receiveBuf.length = bufLen
  fits : ∀ r ∈ n.pending, r.ec = none → r.bytesRecvd ≤ bufLen
  seen : ∃ l, arrivals acts = l ++ n.inFlight ∧ n.messages = l.filterMap (shown cfg.hdLen)

theorem inv_create [Inhabited ε] : Inv cfg [] (create : ServerUDP ε) where
  loop := .waiting rfl rfl
  buf := List.length_replicate
  fits := fun _ hr => by cases hr
  seen := ⟨[], rfl, rfl⟩

theorem Loop.of_receives {op : Option Received} {rest : List (Option Received)} (h : n.Loop)
    (hr : n.receives = op :: rest) : n.receives = [op] ∧ n.running = [] := by
  cases h with
  | waiting hrec hrun => rw [hrec] at hr; cases hr; exact ⟨hrec, hrun⟩
  | done r hrec hrun => rw [hrec] at hr; cases hr; exact ⟨hrec, hrun⟩
  | called r hrec hrun => rw [hrec] at hr; cases hr
  | showing hrec hrun => rw [hrec] at hr; cases hr

theorem Loop.of_running {i : ℕ} {stage : UdpStage} (h : n.Loop) (hr : n.running[i]? = some stage) :
    n.receives = [] ∧ n.running = [stage] ∧ i = 0 := by
  have hone : ∀ stage', n.running = [stage'] → stage' = stage ∧ i = 0 := by
    intro stage' hrun
    rw [hrun] at hr
    obtain ⟨hi, hget⟩ := List.getElem?_eq_some_iff.mp hr
    obtain rfl : i = 0 := by simpa using hi
    exact ⟨hget, rfl⟩
  cases h with
  | waiting hrec hrun => rw [hrun] at hr; cases hr
  | done r hrec hrun => rw [hrun] at hr; cases hr
  | called r hrec hrun =>
      obtain ⟨rfl, hi⟩ := hone _ hrun
      exact ⟨hrec, hrun, hi⟩
  | showing hrec hrun =>
      obtain ⟨rfl, hi⟩ := hone _ hrun
      exact ⟨hrec, hrun, hi⟩

/-- What a step is, while the loop is as it should be. -/
inductive Step (cfg : Config) (cb : Callbacks) (n : ServerUDP ε) :
    ServerUDPAct ε → ServerUDP ε → Prop
  | datagram {d : Datagram ε} : n.receives = [none] → n.running = [] → d.bytes.length ≤ bufLen →
      Step cfg cb n (.datagram d) { n with
        receiveBuf := overwrite n.receiveBuf 0 d.bytes
        senderEndpoint := d.endpoint
        receives := [some ⟨none, d.bytes.length⟩] }
  | fail (ec : ErrorCode) (len : ℕ) : n.receives = [none] → n.running = [] →
      Step cfg cb n (.fail ec len) { n with receives := [some ⟨some ec, len⟩] }
  | invoke {r : Received} : n.receives = [some r] → n.running = [] →
      Step cfg cb n .invoke { n with receives := [], running := [.called r] }
  | call {r : Received} : n.receives = [] → n.running = [.called r] → r.ec = none →
      cfg.hdLen < r.bytesRecvd → cb.onMessage = true →
        Step cfg cb n (.run 0) { n with
          messages := n.messages ++ [n.message cfg r.bytesRecvd]
          running := [.showing] }
  | drop {r : Received} : n.receives = [] → n.running = [.called r] →
      ¬ (r.ec = none ∧ cfg.hdLen < r.bytesRecvd ∧ cb.onMessage = true) →
        Step cfg cb n (.run 0) { n with receives := [none], running := [] }
  | finish : n.receives = [] → n.running = [.showing] →
      Step cfg cb n (.run 0) { n with receives := [none], running := [] }
  | send {a : ServerUDPAct ε} (sends : List (Datagram ε)) (errors : List String) :
      arrivals [a] = [] → Step cfg cb n a { n with sends := sends, errors := errors }

theorem Step.of_step (h : n.Loop) (hstep : n.step cfg cb a = some n') : Step cfg cb n a n' := by
  cases a with
  | datagram d =>
      simp only [step] at hstep
      split at hstep
      · next rest hr =>
        obtain ⟨hrec, hrun⟩ := h.of_receives hr
        obtain rfl : rest = [] := by rw [hrec] at hr; cases hr; rfl
        split at hstep
        · next hle => cases hstep; exact .datagram hrec hrun hle
        · cases hstep
      · cases hstep
  | fail ec len =>
      simp only [step] at hstep
      split at hstep
      · next rest hr =>
        obtain ⟨hrec, hrun⟩ := h.of_receives hr
        obtain rfl : rest = [] := by rw [hrec] at hr; cases hr; rfl
        cases hstep
        exact .fail ec len hrec hrun
      · cases hstep
  | invoke =>
      simp only [step] at hstep
      split at hstep
      · next r rest hr =>
        obtain ⟨hrec, hrun⟩ := h.of_receives hr
        obtain rfl : rest = [] := by rw [hrec] at hr; cases hr; rfl
        cases hstep
        rw [hrun]
        exact .invoke hrec hrun
      · cases hstep
  | run i =>
      simp only [step] at hstep
      split at hstep
      · next r hr =>
        obtain ⟨hrec, hrun, rfl⟩ := h.of_running hr
        simp only [handler] at hstep
        split at hstep
        · next hshow =>
          cases hstep
          rw [hrun]
          exact .call hrec hrun hshow.1 hshow.2.1 hshow.2.2
        · next hdrop =>
          cases hstep
          simp only [doReceive, hrec, hrun, List.nil_append, List.eraseIdx_cons_zero]
          exact .drop hrec hrun hdrop
      · next hr =>
        obtain ⟨hrec, hrun, rfl⟩ := h.of_running hr
        cases hstep
        simp only [doReceive, hrec, hrun, List.nil_append, List.eraseIdx_cons_zero]
        exact .finish hrec hrun
      · cases hstep
  | write remoteAddr head payload => cases hstep; exact .send _ _ rfl
  | sendDone ec =>
      simp only [step] at hstep
      split at hstep
      · cases hstep; exact .send _ _ rfl
      · cases hstep

theorem Loop.step (h : n.Loop) (hstep : Step cfg cb n a n') : n'.Loop := by
  cases hstep with
  | datagram hrec hrun hle => exact .done _ rfl hrun
  | fail ec len hrec hrun => exact .done _ rfl hrun
  | invoke hrec hrun => exact .called _ rfl rfl
  | call hrec hrun hec hlt hcb => exact .showing hrec rfl
  | drop hrec hrun hdrop => exact .waiting rfl rfl
  | finish hrec hrun => exact .waiting rfl rfl
  | send sends errors ha =>
      cases h with
      | waiting hrec hrun => exact .waiting hrec hrun
      | done r hrec hrun => exact .done r hrec hrun
      | called r hrec hrun => exact .called r hrec hrun
      | showing hrec hrun => exact .showing hrec hrun

theorem loop_of_run [Inhabited ε] (h : Run (ServerUDP.step cfg cb) Anything create acts n) : n.Loop :=
  h.invariant (.waiting rfl rfl) fun _ _ _ hI _ hstep => hI.step (.of_step hI hstep)

/-! ### What is reported -/

theorem arrivals_concat (acts : List (ServerUDPAct ε)) (a : ServerUDPAct ε) :
    arrivals (acts ++ [a]) = arrivals acts ++ arrivals [a] := List.filterMap_append

/-- What `onMessage` is given is the last datagram that came. -/
theorem message_eq {bytesRecvd : ℕ} (hbuf : n.receiveBuf.length = bufLen)
    (hle : bytesRecvd ≤ bufLen) (hlt : cfg.hdLen < bytesRecvd) :
    shown cfg.hdLen ⟨n.senderEndpoint, window n.receiveBuf 0 bytesRecvd⟩ =
      some (n.message cfg bytesRecvd) := by
  have hlen : (window n.receiveBuf 0 bytesRecvd).length = bytesRecvd :=
    length_window (by omega)
  have hhead : (window n.receiveBuf 0 bytesRecvd).take cfg.hdLen = window n.receiveBuf 0 cfg.hdLen := by
    rw [window, window, List.take_take, Nat.min_eq_left hlt.le]
  have hrest : (window n.receiveBuf 0 bytesRecvd).drop cfg.hdLen =
      window n.receiveBuf cfg.hdLen (bytesRecvd - cfg.hdLen) := by
    rw [drop_window, Nat.zero_add]
  rw [shown, if_pos (by rw [hlen]; exact hlt), split, hhead, hrest, hlen, message]

theorem Inv.look (h : Inv cfg acts n) {r : Received} (hrec : n.receives = [])
    (hrun : n.running = [.called r]) :
    n.inFlight = (n.held r).toList ∧ (r.ec = none → r.bytesRecvd ≤ bufLen) := by
  have hpending : n.pending = [r] := by rw [pending, hrec, hrun]; rfl
  refine ⟨?_, h.fits r (by rw [hpending]; exact List.mem_singleton_self r)⟩
  rw [inFlight, hpending]
  cases hh : n.held r <;> simp [hh]

theorem Inv.step (h : Inv cfg acts n) (hcb : cb.onMessage = true) (hstep : Step cfg cb n a n') :
    Inv cfg (acts ++ [a]) n' := by
  have hloop := h.loop.step hstep
  obtain ⟨l, harr, hmsg⟩ := h.seen
  cases hstep with
  | @datagram d hrec hrun hle =>
      have hnone : n.inFlight = [] := by rw [inFlight, pending, hrec, hrun]; rfl
      have hread : window (overwrite n.receiveBuf 0 d.bytes) 0 d.bytes.length = d.bytes :=
        window_overwrite (Nat.zero_le _)
      refine ⟨hloop, ?_, ?_, l, ?_, hmsg⟩
      · dsimp only
        rw [length_overwrite (by rw [h.buf]; omega), h.buf]
      · simpa [pending, hrun] using hle
      · rw [arrivals_concat, harr, hnone, List.append_nil]
        simp [arrivals, inFlight, pending, held, hrun, hread]
  | fail ec len hrec hrun =>
      have hnone : n.inFlight = [] := by rw [inFlight, pending, hrec, hrun]; rfl
      refine ⟨hloop, h.buf, by simp [pending, hrun], l, ?_, hmsg⟩
      rw [arrivals_concat, harr, hnone]
      simp [arrivals, inFlight, pending, held, hrun]
  | @invoke r hrec hrun =>
      have hsame : n.pending = [r] := by rw [pending, hrec, hrun]; rfl
      refine ⟨hloop, h.buf, ?_, l, ?_, hmsg⟩
      · have hfits := h.fits
        rw [hsame] at hfits
        exact hfits
      · rw [arrivals_concat, harr, inFlight, hsame, List.append_assoc]
        exact congrArg (l ++ ·) (List.append_nil _)
  | @call r hrec hrun hec hlt hcb =>
      obtain ⟨hflight, hle⟩ := h.look hrec hrun
      have hheld : n.inFlight = [⟨n.senderEndpoint, window n.receiveBuf 0 r.bytesRecvd⟩] := by
        rw [hflight, held, if_pos hec]; rfl
      refine ⟨hloop, h.buf, by simp [pending, hrec, UdpStage.received],
        l ++ n.inFlight, ?_, ?_⟩
      · rw [arrivals_concat, harr]
        simp [arrivals, inFlight, pending, hrec, UdpStage.received]
      · rw [List.filterMap_append, ← hmsg, hheld]
        simp only [List.filterMap_cons, List.filterMap_nil, message_eq h.buf (hle hec) hlt]
  | @drop r hrec hrun hdrop =>
      obtain ⟨hflight, hle⟩ := h.look hrec hrun
      refine ⟨hloop, h.buf, by simp [pending], l ++ n.inFlight, ?_, ?_⟩
      · rw [arrivals_concat, harr]
        simp [arrivals, inFlight, pending]
      · rw [List.filterMap_append, ← hmsg, hflight]
        by_cases hec : r.ec = none
        · have hnot : ¬ cfg.hdLen < (window n.receiveBuf 0 r.bytesRecvd).length := by
            rw [length_window (by rw [h.buf]; have := hle hec; omega)]
            exact fun hlt => hdrop ⟨hec, hlt, hcb⟩
          simp [held, hec, shown, hnot]
        · simp [held, hec]
  | finish hrec hrun =>
      refine ⟨hloop, h.buf, by simp [pending], l, ?_, hmsg⟩
      rw [arrivals_concat, harr]
      simp [arrivals, inFlight, pending, hrec, hrun, UdpStage.received]
  | send sends errors ha =>
      refine ⟨hloop, h.buf, h.fits, l, ?_, hmsg⟩
      rw [arrivals_concat, ha, List.append_nil, harr]
      rfl

theorem Inv.messages_eq (h : Inv cfg acts n) :
    n.messages = (handled acts n).filterMap (shown cfg.hdLen) := by
  obtain ⟨l, harr, hmsg⟩ := h.seen
  have hhandled : handled acts n = l := by
    rw [handled, harr, List.length_append, Nat.add_sub_cancel]
    exact List.take_left
  rw [hhandled, hmsg]

/-- **When datagrams are reported.**  In every state of every run, the calls of `onMessage` are the
datagrams that hold a header, in their order and as they were, and what a `write` has built comes out
as it went in, exactly when none of the datagrams that were handled was just a header. -/
theorem reported_iff [Inhabited ε] (hcb : cb.onMessage = true)
    (h : Run (ServerUDP.step cfg cb) Anything create acts n) :
    Reported cfg acts n ↔ ∀ d ∈ handled acts n, d.bytes.length ≠ cfg.hdLen := by
  have hI : Inv cfg acts n := h.history inv_create fun _ _ _ _ hI _ hstep =>
    hI.step hcb (.of_step hI.loop hstep)
  rw [← shown_eq_expected_iff, ← hI.messages_eq]
  constructor
  · intro hr
    exact hr.exact
  · intro heq
    refine ⟨heq, ?_⟩
    intro endpoint head payload bytes hhead hle hbuilt hmem
    rw [hbuilt.bytes_eq, packet_eq hhead hle] at hmem
    rw [heq]
    exact List.mem_filterMap.mpr ⟨_, hmem, expected_packet endpoint hhead⟩

/-- A packet, a failure, and a datagram without anything. -/
def mixedReceives : List (ServerUDPAct ℕ) :=
  [.datagram ⟨7, [0, 5, 6]⟩, .invoke, .run 0, .run 0, .fail (.other "Connection refused") 0, .invoke,
    .run 0, .datagram ⟨9, []⟩, .invoke, .run 0]

theorem reported_mixedReceives :
    ∃ n, Run (ServerUDP.step .shipped .both) Anything create mixedReceives n ∧
      n.messages = [⟨7, [0], 2, [5, 6]⟩] ∧ Reported .shipped mixedReceives n := by
  have h := Run.of_exec (ServerUDP.step .shipped .both) create mixedReceives (by decide +kernel)
  exact ⟨_, h, by decide +kernel, (reported_iff rfl h).mpr (by decide +kernel)⟩

/-- A packet without payload. -/
def emptyPacket : List (ServerUDPAct ℕ) :=
  [.datagram (ClientUDP.write .shipped 7 [0] []), .invoke, .run 0]

/-- Its receiver does not hear of it. -/
theorem not_reported :
    ∃ n, Run (ServerUDP.step .shipped .both) Anything create emptyPacket n ∧
      handled emptyPacket n = [⟨7, [0]⟩] ∧ n.messages = [] ∧ ¬ Reported .shipped emptyPacket n := by
  have h := Run.of_exec (ServerUDP.step .shipped .both) create emptyPacket (by decide +kernel)
  refine ⟨_, h, by decide +kernel, by decide +kernel, ?_⟩
  intro hr
  exact absurd hr.exact (by decide +kernel)

end ServerUDP

end AsioTcpFrame
