import AsioTcpFrame.ClientUdp
import AsioTcpFrame.Lib.Datagrams

/-! # UDP hosts and the network between them

Any number of `ServerUDP`s and `ClientUDP`s, each bound to an address of its own, over an unreliable
datagram service (`Datagrams.Service`).  A send that completes hands its datagram over, with the address
of the host; a datagram that arrives is taken from the wire.  Everything else happens as in `ServerUDP`
and `ClientUDP`, in any order.

`Inv` says what of this is seen from each host: what has been handed over from its address, with the sends
that are outstanding, is what its user has written, in that order; and what has arrived at its address is
what a server there has been given.  With the account of the service this says what the users hear of
each other (`Heard`): no message is made up, none is heard more often than it was written unless the
network has duplicated it, and when nothing is lost or under way all that have a payload are heard. -/

namespace AsioTcpFrame

open Transition Datagrams

open scoped List

variable {ε : Type}

/-- A datagram on its way, with the address that it comes from. -/
structure UdpPacket (ε : Type) where
  source : ε
  datagram : Datagram ε
deriving DecidableEq

/-- A host, bound to an address. -/
inductive UdpHost (ε : Type) where
  | server (addr : ε) (n : ServerUDP ε)
  | client (addr : ε) (n : ClientUDP ε)

namespace UdpHost

def addr : UdpHost ε → ε
  | server a _ => a
  | client a _ => a

/-- The datagrams whose sends have not completed; those of a client complete at once. -/
def outstanding : UdpHost ε → List (Datagram ε)
  | server _ n => n.sends
  | client _ _ => []

end UdpHost

structure UdpNetwork (ε : Type) where
  hosts : List (UdpHost ε)
  net : Service (UdpPacket ε)

/-- A `ServerUDP` or a `ClientUDP` is made; a server takes a step; the user calls a client; the network
loses or duplicates a packet. -/
inductive UdpNetworkAct (ε : Type) where
  | bindServer (addr : ε)
  | bindClient (addr : ε)
  | server (j : ℕ) (a : ServerUDPAct ε)
  | client (j : ℕ) (c : ClientUDPCall ε)
  | lose (p : UdpPacket ε)
  | duplicate (p : UdpPacket ε)

/-- The arguments of a `write`. -/
structure UdpWrite (ε : Type) where
  remoteAddr : ε
  head : List Byte
  payload : List Byte
deriving DecidableEq

namespace UdpWrite

def datagram (cfg : Config) (w : UdpWrite ε) : Datagram ε :=
  ⟨w.remoteAddr, packet cfg.hdLen w.head w.payload⟩

/-- The `onMessage` that should come of it, when it is written at `source`. -/
def message (source : ε) (w : UdpWrite ε) : UdpMessage ε :=
  ⟨source, w.head, w.payload.length, w.payload⟩

/-- The header has the size that `PakHeadData` has, and the length of the packet does not overflow. -/
def Sized (cfg : Config) (w : UdpWrite ε) : Prop :=
  w.head.length = cfg.hdLen ∧ w.payload.length + cfg.hdLen < 2 ^ 64

instance (cfg : Config) (w : UdpWrite ε) : Decidable (w.Sized cfg) := by unfold Sized; infer_instance

end UdpWrite

/-- The `write` that an action is, if it is one, and at which host. -/
def UdpNetworkAct.write : UdpNetworkAct ε → Option (ℕ × UdpWrite ε)
  | .server j (.write remoteAddr head payload) => some (j, ⟨remoteAddr, head, payload⟩)
  | .client j (.write endpoint head payload _) => some (j, ⟨endpoint, head, payload⟩)
  | _ => none

/-- What a send that completes does to the network. -/
def post (source : ε) (ec : Option ErrorCode) (d : Datagram ε) : Act (UdpPacket ε) :=
  if ec = none then .send ⟨source, d⟩ else .refuse ⟨source, d⟩

@[simp] theorem given_post (source : ε) (ec : Option ErrorCode) (d : Datagram ε) :
    (post source ec d).given = [⟨source, d⟩] := by
  unfold post
  split <;> rfl

@[simp] theorem taken_post (source : ε) (ec : Option ErrorCode) (d : Datagram ε) :
    (post source ec d).taken = [] := by
  unfold post
  split <;> rfl

/-- What a step of a server at `addr` does to the network. -/
def ServerUDP.posts (addr : ε) (n : ServerUDP ε) : ServerUDPAct ε → Option (Act (UdpPacket ε))
  | .datagram d => some (.arrive ⟨d.endpoint, ⟨addr, d.bytes⟩⟩)
  | .sendDone ec => n.sends.head?.map (post addr ec)
  | _ => none

/-- What a call of a client at `addr` does to the network. -/
def ClientUDP.posts (cfg : Config) (addr : ε) : ClientUDPCall ε → Option (Act (UdpPacket ε))
  | .write endpoint head payload ec => some (post addr ec (write cfg endpoint head payload))
  | _ => none

namespace UdpNetwork

variable {cfg : Config} {cb : Callbacks} {n n' : UdpNetwork ε} {acts : List (UdpNetworkAct ε)}
  {act : UdpNetworkAct ε} {source target : ε} {l : List (UdpPacket ε)} {i j : ℕ} {host : UdpHost ε}
  {m : ServerUDP ε}

def create : UdpNetwork ε := ⟨[], Service.empty⟩

def addrs (n : UdpNetwork ε) : List ε := n.hosts.map UdpHost.addr

/-! ### What is seen of a run -/

/-- The steps of the server `j` in a run of the network. -/
def serverActs (j : ℕ) (acts : List (UdpNetworkAct ε)) : List (ServerUDPAct ε) :=
  acts.filterMap fun
    | .server k a => if k = j then some a else none
    | _ => none

/-- What the user of the host `j` has written. -/
def written (j : ℕ) (acts : List (UdpNetworkAct ε)) : List (UdpWrite ε) :=
  (acts.filterMap UdpNetworkAct.write).filterMap fun w => if w.1 = j then some w.2 else none

theorem serverActs_append (j : ℕ) (as bs : List (UdpNetworkAct ε)) :
    serverActs j (as ++ bs) = serverActs j as ++ serverActs j bs := List.filterMap_append

theorem written_append (j : ℕ) (as bs : List (UdpNetworkAct ε)) :
    written j (as ++ bs) = written j as ++ written j bs := by
  rw [written, List.filterMap_append, List.filterMap_append]
  rfl

theorem arrivals_append (as bs : List (ServerUDPAct ε)) :
    ServerUDP.arrivals (as ++ bs) = ServerUDP.arrivals as ++ ServerUDP.arrivals bs :=
  List.filterMap_append

theorem mem_addrs (hj : n.hosts[j]? = some host) : host.addr ∈ n.addrs :=
  List.mem_map_of_mem (List.mem_of_getElem? hj)

theorem addr_ne {other : UdpHost ε} (hnodup : n.addrs.Nodup) (hj : n.hosts[j]? = some host)
    (hi : n.hosts[i]? = some other) (hne : i ≠ j) : other.addr ≠ host.addr := by
  intro heq
  have hi' : n.addrs[i]? = some other.addr := by rw [addrs, List.getElem?_map, hi]; rfl
  have hj' : n.addrs[j]? = some host.addr := by rw [addrs, List.getElem?_map, hj]; rfl
  have hlt : i < n.addrs.length := (List.getElem?_eq_some_iff.mp hi').1
  exact hne ((List.getElem?_inj hlt hnodup).mp (by rw [hi', hj', heq]))

theorem addrs_set {host' : UdpHost ε} (hj : n.hosts[j]? = some host) (haddr : host'.addr = host.addr)
    (net : Service (UdpPacket ε)) : addrs ⟨n.hosts.set j host', net⟩ = n.addrs := by
  have hget : n.addrs[j]? = some host.addr := by rw [addrs, List.getElem?_map, hj]; rfl
  obtain ⟨hlt, hget⟩ := List.getElem?_eq_some_iff.mp hget
  rw [addrs, List.map_set, haddr, ← hget]
  exact List.set_getElem_self hlt

/-! ### What a host does -/

/-- What an action of a host, or none, hands over. -/
def given (b : Option (Act (UdpPacket ε))) : List (UdpPacket ε) := b.elim [] Act.given

/-- What arrives by it. -/
def taken (b : Option (Act (UdpPacket ε))) : List (UdpPacket ε) := b.elim [] Act.taken

theorem sends_step {addr : ε} {a : ServerUDPAct ε} {m' : ServerUDP ε} (hs : m.step cfg cb a = some m') :
    (given (m.posts addr a)).map UdpPacket.datagram ++ m'.sends =
      m.sends ++ (written j [.server j a]).map (UdpWrite.datagram cfg) := by
  cases a with
  | datagram d =>
      simp only [ServerUDP.step] at hs
      split at hs
      · split at hs
        · cases hs
          exact (List.append_nil _).symm
        · cases hs
      · cases hs
  | fail ec len =>
      simp only [ServerUDP.step] at hs
      split at hs
      · cases hs
        exact (List.append_nil _).symm
      · cases hs
  | invoke =>
      simp only [ServerUDP.step] at hs
      split at hs
      · cases hs
        exact (List.append_nil _).symm
      · cases hs
  | run i =>
      simp only [ServerUDP.step] at hs
      split at hs
      · cases hs
        unfold ServerUDP.handler
        split <;> exact (List.append_nil _).symm
      · cases hs
        exact (List.append_nil _).symm
      · cases hs
  | write remoteAddr head payload =>
      cases hs
      simp [given, ServerUDP.posts, written, UdpNetworkAct.write, ServerUDP.write, UdpWrite.datagram]
  | sendDone ec =>
      simp only [ServerUDP.step] at hs
      split at hs
      · next d rest hsends =>
        cases hs
        simp [given, ServerUDP.posts, hsends, written, UdpNetworkAct.write]
      · cases hs

/-- What a step of the host `j` is for the network: it hands over what it has written, and a server is
given what arrives. -/
structure HostStep [Inhabited ε] (cfg : Config) (cb : Callbacks) (j : ℕ) (act : UdpNetworkAct ε)
    (b : Option (Act (UdpPacket ε))) (host host' : UdpHost ε) : Prop where
  addr : host'.addr = host.addr
  own : ∀ p ∈ given b, p.source = host.addr
  mine : ∀ p ∈ taken b, p.datagram.endpoint = host.addr
  sent : (given b).map UdpPacket.datagram ++ host'.outstanding =
    host.outstanding ++ (written j [act]).map (UdpWrite.datagram cfg)
  arrived : (taken b).map (fun p => ⟨p.source, p.datagram.bytes⟩) =
    ServerUDP.arrivals (serverActs j [act])
  others : ∀ k, k ≠ j → serverActs k [act] = [] ∧ written k [act] = []
  server : ∀ a m', host' = .server a m' → ∃ m, host = .server a m ∧
    ∀ as, Run (ServerUDP.step cfg cb) Anything ServerUDP.create as m →
      Run (ServerUDP.step cfg cb) Anything ServerUDP.create (as ++ serverActs j [act]) m'

theorem HostStep.of_server [Inhabited ε] {addr : ε} {a : ServerUDPAct ε} {m' : ServerUDP ε}
    (hs : m.step cfg cb a = some m') :
    HostStep cfg cb j (.server j a) (m.posts addr a) (.server addr m) (.server addr m') where
  addr := rfl
  own := by
    intro p hp
    cases a with
    | sendDone ec =>
        cases hsends : m.sends.head? with
        | none => simp [given, ServerUDP.posts, hsends] at hp
        | some d =>
            have hp : p = ⟨addr, d⟩ := by simpa [given, ServerUDP.posts, hsends] using hp
            rw [hp]
            rfl
    | _ => cases hp
  mine := by
    intro p hp
    cases a with
    | datagram d =>
        rw [List.mem_singleton.mp hp]
        rfl
    | sendDone ec => cases hsends : m.sends.head? <;> simp [taken, ServerUDP.posts, hsends] at hp
    | _ => cases hp
  sent := sends_step hs
  arrived := by
    cases a with
    | datagram d => simp [taken, ServerUDP.posts, Act.taken, serverActs, ServerUDP.arrivals]
    | sendDone ec =>
        cases hsends : m.sends.head? <;>
          simp [taken, ServerUDP.posts, hsends, serverActs, ServerUDP.arrivals]
    | _ => simp [taken, ServerUDP.posts, serverActs, ServerUDP.arrivals]
  others := by
    intro k hk
    refine ⟨by simp [serverActs, hk.symm], ?_⟩
    cases a <;> simp [written, UdpNetworkAct.write, hk.symm]
  server := by
    intro a' m'' heq
    cases heq
    refine ⟨m, rfl, ?_⟩
    intro as hrun
    have hone : serverActs j [.server j a] = [a] := by simp [serverActs]
    rw [hone]
    exact .tail hrun trivial hs

theorem HostStep.of_client [Inhabited ε] {addr : ε} {c : ClientUDPCall ε} {m m' : ClientUDP ε} :
    HostStep cfg cb j (.client j c) (ClientUDP.posts cfg addr c) (.client addr m) (.client addr m') where
  addr := rfl
  own := by
    intro p hp
    cases c with
    | write endpoint head payload ec =>
        have hp : p = ⟨addr, ClientUDP.write cfg endpoint head payload⟩ := by
          simpa [given, ClientUDP.posts] using hp
        rw [hp]
        rfl
    | _ => cases hp
  mine := by
    intro p hp
    cases c with
    | write endpoint head payload ec => simp [taken, ClientUDP.posts] at hp
    | _ => cases hp
  sent := by
    cases c with
    | write endpoint head payload ec =>
        simp [given, ClientUDP.posts, UdpHost.outstanding, written, UdpNetworkAct.write,
          UdpWrite.datagram, ClientUDP.write]
    | _ => rfl
  arrived := by
    cases c with
    | write endpoint head payload ec =>
        simp [taken, ClientUDP.posts, serverActs, ServerUDP.arrivals]
    | _ => rfl
  others := by
    intro k hk
    refine ⟨by simp [serverActs], ?_⟩
    cases c <;> simp [written, UdpNetworkAct.write, hk.symm]
  server := by
    intro a' m'' heq
    cases heq

/-! ### The network -/

section
variable [DecidableEq ε] (cfg cb)

/-- The network after what a host has done to it, if anything. -/
def posted (n : UdpNetwork ε) (a : Option (Act (UdpPacket ε))) : Option (Service (UdpPacket ε)) :=
  a.elim (some n.net) n.net.step

def step [Inhabited ε] (n : UdpNetwork ε) : UdpNetworkAct ε → Option (UdpNetwork ε)
  | .bindServer addr =>
      if addr ∈ n.addrs then none
      else some { n with hosts := n.hosts ++ [.server addr ServerUDP.create] }
  | .bindClient addr =>
      if addr ∈ n.addrs then none
      else some { n with hosts := n.hosts ++ [.client addr ClientUDP.create] }
  | .server j a =>
      match n.hosts[j]? with
      | some (.server addr m) =>
          (m.step cfg cb a).bind fun m' => (n.posted (m.posts addr a)).map fun net =>
            ⟨n.hosts.set j (.server addr m'), net⟩
      | _ => none
  | .client j c =>
      match n.hosts[j]? with
      | some (.client addr m) =>
          (m.call cfg cb.onError c).bind fun m' => (n.posted (ClientUDP.posts cfg addr c)).map fun net =>
            ⟨n.hosts.set j (.client addr m'), net⟩
      | _ => none
  | .lose p => (n.net.step (.lose p)).map fun net => { n with net := net }
  | .duplicate p => (n.net.step (.duplicate p)).map fun net => { n with net := net }

/-- What is written has the sizes that it has in the code. -/
def Sized (_ : UdpNetwork ε) (a : UdpNetworkAct ε) : Prop := ∀ w ∈ a.write, w.2.Sized cfg

instance (n : UdpNetwork ε) (a : UdpNetworkAct ε) : Decidable (n.Sized cfg a) := by
  unfold Sized
  infer_instance

/-- The messages that the user of the host `j` at `source` has written to `target`. -/
def writtenTo (j : ℕ) (source target : ε) (acts : List (UdpNetworkAct ε)) : List (UdpMessage ε) :=
  ((written j acts).filter fun w => w.remoteAddr = target).map (UdpWrite.message source)

/-- A datagram that comes from `source`. -/
def cameFrom (source : ε) (p : UdpPacket ε) : Option (Datagram ε) :=
  if p.source = source then some p.datagram else none

/-- A datagram that goes to `target`, as its receiver sees it. -/
def goesTo (target : ε) (p : UdpPacket ε) : Option (Datagram ε) :=
  if p.datagram.endpoint = target then some ⟨p.source, p.datagram.bytes⟩ else none

/-- A packet from `source` to `target`. -/
def Between (source target : ε) (p : UdpPacket ε) : Prop :=
  p.source = source ∧ p.datagram.endpoint = target

/-- Nothing from the host at `source` to the server `m` at `target` is lost, duplicated or under way. -/
structure Quiet (n : UdpNetwork ε) (host : UdpHost ε) (target : ε) (m : ServerUDP ε) : Prop where
  outstanding : host.outstanding = []
  wire : ∀ p ∈ n.net.wire, ¬ Between host.addr target p
  lost : ∀ p ∈ n.net.lost, ¬ Between host.addr target p
  duplicated : ∀ p ∈ n.net.duplicated, ¬ Between host.addr target p
  inFlight : m.inFlight = []

/-- What a server at `target` hears of the other hosts. -/
structure Heard (acts : List (UdpNetworkAct ε)) (n : UdpNetwork ε) (target : ε) (m : ServerUDP ε) :
    Prop where
  genuine : ∀ msg ∈ m.messages, ∃ i host, n.hosts[i]? = some host ∧ host.addr = msg.remoteAddr ∧
    msg ∈ writtenTo i msg.remoteAddr target acts ∧ msg.content ≠ []
  once : ∀ i host, n.hosts[i]? = some host →
    (∀ p ∈ n.net.duplicated, ¬ Between host.addr target p) →
      m.messages.filter (fun msg => msg.remoteAddr = host.addr) <+~ writtenTo i host.addr target acts
  all : ∀ i host, n.hosts[i]? = some host → n.Quiet host target m →
    m.messages.filter (fun msg => msg.remoteAddr = host.addr) ~
      (writtenTo i host.addr target acts).filter fun msg => msg.content ≠ []

/-- What holds in every state of the network. -/
structure Inv [Inhabited ε] (acts : List (UdpNetworkAct ε)) (n : UdpNetwork ε) : Prop where
  servers : ∀ j a m, n.hosts[j]? = some (.server a m) →
    Run (ServerUDP.step cfg cb) Anything ServerUDP.create (serverActs j acts) m
  fresh : ∀ j, n.hosts.length ≤ j → serverActs j acts = [] ∧ written j acts = []
  addrs : n.addrs.Nodup
  accounted : n.net.Accounted
  sources : ∀ p ∈ n.net.sent, p.source ∈ n.addrs
  targets : ∀ p ∈ n.net.arrived, p.datagram.endpoint ∈ n.addrs
  sent : ∀ j host, n.hosts[j]? = some host →
    n.net.sent.filterMap (cameFrom host.addr) ++ host.outstanding =
      (written j acts).map (UdpWrite.datagram cfg)
  arrived : ∀ j a m, n.hosts[j]? = some (.server a m) →
    n.net.arrived.filterMap (goesTo a) = ServerUDP.arrivals (serverActs j acts)

end

variable [DecidableEq ε]

/-! ### Packets of one address -/

theorem filterMap_cameFrom (hl : ∀ p ∈ l, p.source = source) :
    l.filterMap (cameFrom source) = l.map UdpPacket.datagram := by
  rw [← List.filterMap_eq_map]
  exact List.filterMap_congr fun p hp => if_pos (hl p hp)

theorem filterMap_cameFrom_ne (hl : ∀ p ∈ l, p.source ≠ source) :
    l.filterMap (cameFrom source) = [] :=
  List.filterMap_eq_nil_iff.mpr fun p hp => if_neg (hl p hp)

theorem filterMap_goesTo (hl : ∀ p ∈ l, p.datagram.endpoint = target) :
    l.filterMap (goesTo target) = l.map fun p => ⟨p.source, p.datagram.bytes⟩ := by
  rw [← List.filterMap_eq_map]
  exact List.filterMap_congr fun p hp => if_pos (hl p hp)

theorem filterMap_goesTo_ne (hl : ∀ p ∈ l, p.datagram.endpoint ≠ target) :
    l.filterMap (goesTo target) = [] :=
  List.filterMap_eq_nil_iff.mpr fun p hp => if_neg (hl p hp)

theorem posted_ends {b : Option (Act (UdpPacket ε))} {net : Service (UdpPacket ε)}
    (h : n.posted b = some net) :
    net.sent = n.net.sent ++ given b ∧ net.arrived = n.net.arrived ++ taken b := by
  cases b with
  | none => cases h; exact ⟨(List.append_nil _).symm, (List.append_nil _).symm⟩
  | some b => exact Service.step_ends h

theorem posted_accounted {b : Option (Act (UdpPacket ε))} {net : Service (UdpPacket ε)}
    (hacc : n.net.Accounted) (h : n.posted b = some net) : net.Accounted := by
  cases b with
  | none => cases h; exact hacc
  | some b => exact hacc.step h

/-- What the server at `target` makes of a packet, when it comes from `source`. -/
def heard (cfg : Config) (source target : ε) (p : UdpPacket ε) : Option (UdpMessage ε) :=
  ((goesTo target p).bind (ServerUDP.shown cfg.hdLen)).filter fun msg => msg.remoteAddr = source

/-- The same, of a datagram that was sent at `source`. -/
def told (cfg : Config) (source target : ε) (d : Datagram ε) : Option (UdpMessage ε) :=
  if d.endpoint = target then ServerUDP.shown cfg.hdLen ⟨source, d.bytes⟩ else none

theorem heard_eq (p : UdpPacket ε) :
    heard cfg source target p = (cameFrom source p).bind (told cfg source target) := by
  unfold heard goesTo cameFrom told
  by_cases htarget : p.datagram.endpoint = target
  · by_cases hsource : p.source = source
    · subst hsource
      simp only [htarget, if_true, Option.bind_some, ServerUDP.shown]
      split <;> simp [ServerUDP.split]
    · simp only [htarget, hsource, if_true, if_false, Option.bind_some, Option.bind_none,
        ServerUDP.shown]
      split <;> simp [ServerUDP.split, hsource]
  · by_cases hsource : p.source = source <;> simp [htarget, hsource]

theorem heard_of_not_between {p : UdpPacket ε} (h : ¬ Between source target p) :
    heard cfg source target p = none := by
  rw [heard_eq]
  unfold cameFrom told
  split
  · next hsource => exact if_neg fun htarget => h ⟨hsource, htarget⟩
  · rfl

theorem heard_eq_none (h : ∀ p ∈ l, ¬ Between source target p) :
    ∀ p ∈ l, heard cfg source target p = none :=
  fun p hp => heard_of_not_between (h p hp)

/-- What a `write` comes to, at a server: a message, if there is a payload. -/
theorem told_datagram {w : UdpWrite ε} (hw : w.Sized cfg) :
    told cfg source target (w.datagram cfg) =
      if w.remoteAddr = target ∧ w.payload ≠ [] then some (w.message source) else none := by
  obtain ⟨hhead, hlt⟩ := hw
  have hpacket : packet cfg.hdLen w.head w.payload = w.head ++ w.payload :=
    ServerUDP.packet_append hhead hlt
  have hlen : (w.head ++ w.payload).length = cfg.hdLen + w.payload.length := by
    rw [List.length_append, hhead]
  have hsplit : ServerUDP.split cfg.hdLen ⟨source, w.head ++ w.payload⟩ = w.message source := by
    rw [← hhead]
    simp [ServerUDP.split, UdpWrite.message]
  by_cases htarget : w.remoteAddr = target
  · by_cases hnil : w.payload = []
    · simp only [told, UdpWrite.datagram, htarget, hpacket, ServerUDP.shown, hlen, if_true]
      simp [hnil]
    · have hpos : 0 < w.payload.length := List.length_pos_of_ne_nil hnil
      simp only [told, UdpWrite.datagram, htarget, hpacket, ServerUDP.shown, hlen, hsplit, if_true]
      rw [if_pos (by omega), if_pos ⟨trivial, hnil⟩]
  · simp [told, UdpWrite.datagram, htarget]

theorem filterMap_told {ws : List (UdpWrite ε)} (hws : ∀ w ∈ ws, w.Sized cfg) :
    (ws.map (UdpWrite.datagram cfg)).filterMap (told cfg source target) =
      ((ws.filter fun w => w.remoteAddr = target).map (UdpWrite.message source)).filter
        fun msg => msg.content ≠ [] := by
  induction ws with
  | nil => rfl
  | cons w ws ih =>
      have hw : w.Sized cfg := hws w (List.mem_cons_self ..)
      have ih := ih fun v hv => hws v (List.mem_cons_of_mem _ hv)
      rw [List.map_cons, List.filterMap_cons, told_datagram hw, ih]
      by_cases htarget : w.remoteAddr = target
      · by_cases hnil : w.payload = []
        · simp [htarget, hnil, UdpWrite.message]
        · simp [htarget, hnil, UdpWrite.message]
      · simp [htarget]

/-! ### One step -/

variable [Inhabited ε]

theorem Inv.hostStep {host' : UdpHost ε} {b : Option (Act (UdpPacket ε))}
    {net : Service (UdpPacket ε)} (h : Inv cfg cb acts n) (hj : n.hosts[j]? = some host)
    (hstep : HostStep cfg cb j act b host host') (hpost : n.posted b = some net) :
    Inv cfg cb (acts ++ [act]) ⟨n.hosts.set j host', net⟩ := by
  obtain ⟨hsent, harrived⟩ := posted_ends hpost
  have hlt : j < n.hosts.length := (List.getElem?_eq_some_iff.mp hj).1
  have haddrs : (⟨n.hosts.set j host', net⟩ : UdpNetwork ε).addrs = n.addrs :=
    addrs_set hj hstep.addr net
  have hself : (n.hosts.set j host')[j]? = some host' := List.getElem?_set_self hlt
  have hother : ∀ k, k ≠ j → (n.hosts.set j host')[k]? = n.hosts[k]? :=
    fun k hk => List.getElem?_set_ne hk.symm
  refine ⟨?_, ?_, ?_, posted_accounted h.accounted hpost, ?_, ?_, ?_, ?_⟩
  · intro k a m' hk
    rw [serverActs_append]
    by_cases hkj : k = j
    · subst hkj
      obtain ⟨m, hm, hrun⟩ := hstep.server a m' (Option.some.inj (hself.symm.trans hk))
      exact hrun _ (h.servers k a m (hm ▸ hj))
    · rw [(hstep.others k hkj).1, List.append_nil]
      exact h.servers k a m' ((hother k hkj) ▸ hk)
  · intro k hk
    have hk : n.hosts.length ≤ k := by simpa using hk
    have hkj : k ≠ j := by omega
    rw [serverActs_append, written_append, (h.fresh k hk).1, (h.fresh k hk).2]
    exact hstep.others k hkj
  · rw [haddrs]
    exact h.addrs
  · intro p hp
    rw [haddrs]
    rcases List.mem_append.mp (hsent ▸ hp) with hp | hp
    · exact h.sources p hp
    · rw [hstep.own p hp]
      exact mem_addrs hj
  · intro p hp
    rw [haddrs]
    rcases List.mem_append.mp (harrived ▸ hp) with hp | hp
    · exact h.targets p hp
    · rw [hstep.mine p hp]
      exact mem_addrs hj
  · intro k other hk
    show net.sent.filterMap _ ++ _ = _
    rw [hsent, List.filterMap_append, written_append, List.map_append]
    by_cases hkj : k = j
    · subst hkj
      obtain rfl : host' = other := Option.some.inj (hself.symm.trans hk)
      rw [hstep.addr, filterMap_cameFrom hstep.own, List.append_assoc, hstep.sent,
        ← List.append_assoc, h.sent k host hj]
    · have hk : n.hosts[k]? = some other := (hother k hkj) ▸ hk
      have hne : ∀ p ∈ given b, p.source ≠ other.addr :=
        fun p hp heq => addr_ne h.addrs hj hk hkj (heq.symm.trans (hstep.own p hp))
      rw [filterMap_cameFrom_ne hne, (hstep.others k hkj).2, List.append_nil, h.sent k other hk]
      exact (List.append_nil _).symm
  · intro k a m' hk
    show net.arrived.filterMap _ = _
    rw [harrived, List.filterMap_append, serverActs_append, arrivals_append]
    by_cases hkj : k = j
    · subst hkj
      obtain rfl : host' = .server a m' := Option.some.inj (hself.symm.trans hk)
      obtain ⟨m, rfl, -⟩ := hstep.server a m' rfl
      have htaken : (taken b).filterMap (goesTo a) = _ := filterMap_goesTo hstep.mine
      rw [htaken, hstep.arrived, h.arrived k a m hj]
    · have hk : n.hosts[k]? = some (.server a m') := (hother k hkj) ▸ hk
      have hne : ∀ p ∈ taken b, p.datagram.endpoint ≠ a :=
        fun p hp heq => addr_ne h.addrs hj hk hkj (heq.symm.trans (hstep.mine p hp))
      rw [filterMap_goesTo_ne hne, (hstep.others k hkj).1, h.arrived k a m' hk]
      rfl

theorem Inv.bind (h : Inv cfg cb acts n) {new : UdpHost ε} (hfree : new.addr ∉ n.addrs)
    (hout : new.outstanding = [])
    (hnew : ∀ a m, new = .server a m → m = ServerUDP.create)
    (hact : ∀ k, serverActs k [act] = [] ∧ written k [act] = []) :
    Inv cfg cb (acts ++ [act]) { n with hosts := n.hosts ++ [new] } := by
  have hacts : ∀ k, serverActs k (acts ++ [act]) = serverActs k acts := by
    intro k
    rw [serverActs_append, (hact k).1, List.append_nil]
  have hwrites : ∀ k, written k (acts ++ [act]) = written k acts := by
    intro k
    rw [written_append, (hact k).2, List.append_nil]
  have haddrs : ({ n with hosts := n.hosts ++ [new] } : UdpNetwork ε).addrs = n.addrs ++ [new.addr] :=
    List.map_append
  have hget : ∀ k other, (n.hosts ++ [new])[k]? = some other →
      n.hosts[k]? = some other ∨ k = n.hosts.length ∧ other = new := by
    intro k other hk
    rcases Nat.lt_trichotomy k n.hosts.length with hlt | heq | hgt
    · rw [List.getElem?_append_left hlt] at hk
      exact .inl hk
    · subst heq
      rw [List.getElem?_concat_length] at hk
      exact .inr ⟨rfl, (Option.some.inj hk).symm⟩
    · rw [List.getElem?_eq_none (by simp; omega)] at hk
      cases hk
  have hsource : n.net.sent.filterMap (cameFrom new.addr) = [] :=
    filterMap_cameFrom_ne fun p hp heq => hfree (heq ▸ h.sources p hp)
  have htarget : n.net.arrived.filterMap (goesTo new.addr) = [] :=
    filterMap_goesTo_ne fun p hp heq => hfree (heq ▸ h.targets p hp)
  refine ⟨?_, ?_, ?_, h.accounted, ?_, ?_, ?_, ?_⟩
  · intro k a m hk
    rw [hacts]
    rcases hget k _ hk with hk | ⟨rfl, heq⟩
    · exact h.servers k a m hk
    · rw [hnew a m heq.symm, (h.fresh _ le_rfl).1]
      exact .refl
  · intro k hk
    rw [hacts, hwrites]
    exact h.fresh k (le_trans (by simp) hk)
  · rw [haddrs]
    exact List.nodup_append.mpr ⟨h.addrs, List.pairwise_singleton _ _, by
      rintro a ha b hb rfl
      exact hfree (List.mem_singleton.mp hb ▸ ha)⟩
  · intro p hp
    rw [haddrs]
    exact List.mem_append_left _ (h.sources p hp)
  · intro p hp
    rw [haddrs]
    exact List.mem_append_left _ (h.targets p hp)
  · intro k other hk
    rw [hwrites]
    rcases hget k _ hk with hk | ⟨rfl, rfl⟩
    · exact h.sent k other hk
    · show n.net.sent.filterMap _ ++ _ = _
      rw [hsource, hout, (h.fresh _ le_rfl).2]
      rfl
  · intro k a m hk
    rw [hacts]
    rcases hget k _ hk with hk | ⟨rfl, rfl⟩
    · exact h.arrived k a m hk
    · show n.net.arrived.filterMap _ = _
      rw [(h.fresh _ le_rfl).1]
      exact htarget

theorem Inv.network (h : Inv cfg cb acts n) {b : Act (UdpPacket ε)} {net : Service (UdpPacket ε)}
    (hs : n.net.step b = some net) (hgiven : b.given = []) (htaken : b.taken = [])
    (hact : ∀ k, serverActs k [act] = [] ∧ written k [act] = []) :
    Inv cfg cb (acts ++ [act]) { n with net := net } := by
  have hacts : ∀ k, serverActs k (acts ++ [act]) = serverActs k acts := by
    intro k
    rw [serverActs_append, (hact k).1, List.append_nil]
  have hwrites : ∀ k, written k (acts ++ [act]) = written k acts := by
    intro k
    rw [written_append, (hact k).2, List.append_nil]
  obtain ⟨hsent, harrived⟩ := Service.step_ends hs
  rw [hgiven, List.append_nil] at hsent
  rw [htaken, List.append_nil] at harrived
  refine ⟨?_, ?_, h.addrs, h.accounted.step hs, ?_, ?_, ?_, ?_⟩
  · intro k a m hk
    rw [hacts]
    exact h.servers k a m hk
  · intro k hk
    rw [hacts, hwrites]
    exact h.fresh k hk
  · intro p hp
    exact h.sources p (hsent ▸ hp)
  · intro p hp
    exact h.targets p (harrived ▸ hp)
  · intro k other hk
    rw [hwrites]
    show net.sent.filterMap _ ++ _ = _
    rw [hsent]
    exact h.sent k other hk
  · intro k a m hk
    rw [hacts]
    show net.arrived.filterMap _ = _
    rw [harrived]
    exact h.arrived k a m hk

theorem Inv.step (h : Inv cfg cb acts n) (hs : n.step cfg cb act = some n') :
    Inv cfg cb (acts ++ [act]) n' := by
  cases act with
  | bindServer addr =>
      obtain ⟨hfree, ⟨⟩⟩ := Option.ite_none_left_eq_some.mp hs
      refine h.bind hfree rfl ?_ fun _ => ⟨rfl, rfl⟩
      intro a m heq
      cases heq
      rfl
  | bindClient addr =>
      obtain ⟨hfree, ⟨⟩⟩ := Option.ite_none_left_eq_some.mp hs
      refine h.bind hfree rfl ?_ fun _ => ⟨rfl, rfl⟩
      intro a m heq
      cases heq
  | server j a =>
      simp only [UdpNetwork.step] at hs
      split at hs
      · next addr m hj =>
        obtain ⟨m', hm, hs⟩ := Option.bind_eq_some_iff.mp hs
        obtain ⟨net, hpost, rfl⟩ := Option.map_eq_some_iff.mp hs
        exact h.hostStep hj (.of_server hm) hpost
      · cases hs
  | client j c =>
      simp only [UdpNetwork.step] at hs
      split at hs
      · next addr m hj =>
        obtain ⟨m', -, hs⟩ := Option.bind_eq_some_iff.mp hs
        obtain ⟨net, hpost, rfl⟩ := Option.map_eq_some_iff.mp hs
        exact h.hostStep hj .of_client hpost
      · cases hs
  | lose p =>
      obtain ⟨net, hnet, rfl⟩ := Option.map_eq_some_iff.mp hs
      exact h.network hnet rfl rfl fun _ => ⟨rfl, rfl⟩
  | duplicate p =>
      obtain ⟨net, hnet, rfl⟩ := Option.map_eq_some_iff.mp hs
      exact h.network hnet rfl rfl fun _ => ⟨rfl, rfl⟩

theorem inv_create : Inv cfg cb [] (create : UdpNetwork ε) where
  servers := by
    intro j a m hj
    cases hj
  fresh := fun _ _ => ⟨rfl, rfl⟩
  addrs := .nil
  accounted := Service.accounted_empty
  sources := by
    intro p hp
    cases hp
  targets := by
    intro p hp
    cases hp
  sent := by
    intro j host hj
    cases hj
  arrived := by
    intro j a m hj
    cases hj

theorem inv_of_run (h : Run (step cfg cb) (Sized cfg) create acts n) : Inv cfg cb acts n :=
  h.history inv_create fun _ _ _ _ hI _ hs => hI.step hs

theorem sized_of_run (h : Run (step cfg cb) (Sized cfg) create acts n) (j : ℕ) :
    ∀ w ∈ written j acts, w.Sized cfg := by
  apply h.history (I := fun acts _ => ∀ w ∈ written j acts, w.Sized cfg)
  · intro w hw
    cases hw
  · intro acts n act n' ih hG _ w hw
    rw [written_append] at hw
    rcases List.mem_append.mp hw with hw | hw
    · exact ih w hw
    · obtain ⟨v, hv, hvj⟩ := List.mem_filterMap.mp hw
      obtain ⟨b, hb, hbv⟩ := List.mem_filterMap.mp hv
      rw [List.mem_singleton.mp hb] at hbv
      obtain ⟨-, ⟨⟩⟩ := Option.ite_none_right_eq_some.mp hvj
      exact hG v hbv

/-! ### What is heard -/

/-- What a server has been shown of `source`, and what it has still to look at. -/
theorem Inv.filterMap_arrived (h : Inv cfg cb acts n) (hcb : cb.onMessage = true)
    (hj : n.hosts[j]? = some (.server target m)) (source : ε) : ∃ rest,
    n.net.arrived.filterMap (heard cfg source target) =
      m.messages.filter (fun msg => msg.remoteAddr = source) ++ rest ∧
    (m.inFlight = [] → rest = []) := by
  have hserver : ServerUDP.Inv cfg (serverActs j acts) m :=
    (h.servers j target m hj).history ServerUDP.inv_create fun _ _ _ _ hI _ hs =>
      hI.step hcb (.of_step hI.loop hs)
  obtain ⟨l, harr, hmsg⟩ := hserver.seen
  have hsplit : heard cfg source target = fun p => (goesTo target p).bind fun d =>
      (ServerUDP.shown cfg.hdLen d).filter fun msg => msg.remoteAddr = source := by
    funext p
    unfold heard
    cases goesTo target p <;> rfl
  refine ⟨m.inFlight.filterMap fun d =>
    (ServerUDP.shown cfg.hdLen d).filter fun msg => msg.remoteAddr = source, ?_, ?_⟩
  · rw [hsplit, ← List.filterMap_filterMap, h.arrived j target m hj, harr, List.filterMap_append,
      hmsg, List.filter_filterMap]
  · intro hnil
    rw [hnil]
    rfl

theorem Inv.filterMap_sent (h : Inv cfg cb acts n) (hsized : ∀ w ∈ written i acts, w.Sized cfg)
    (hi : n.hosts[i]? = some host) (target : ε) :
    n.net.sent.filterMap (heard cfg host.addr target) ++
        host.outstanding.filterMap (told cfg host.addr target) =
      (writtenTo i host.addr target acts).filter fun msg => msg.content ≠ [] := by
  have hheard : heard cfg host.addr target = fun p =>
      (cameFrom host.addr p).bind (told cfg host.addr target) := by
    funext p
    exact heard_eq p
  rw [hheard, ← List.filterMap_filterMap, ← List.filterMap_append, h.sent i host hi,
    filterMap_told hsized]
  rfl

/-- What is picked for a server was sent at an address of a host, and written there. -/
theorem Inv.written_of_heard (h : Inv cfg cb acts n)
    (hsized : ∀ i, ∀ w ∈ written i acts, w.Sized cfg) {p : UdpPacket ε} {msg : UdpMessage ε}
    (hp : p ∈ n.net.sent) (hheard : heard cfg source target p = some msg) :
    ∃ i host, n.hosts[i]? = some host ∧ host.addr = source ∧
      msg ∈ writtenTo i source target acts ∧ msg.content ≠ [] := by
  have hsource : p.source = source := by
    by_contra hne
    rw [heard_of_not_between fun hb => hne hb.1] at hheard
    cases hheard
  obtain ⟨host, hhost, haddr⟩ := List.mem_map.mp (h.sources p hp)
  obtain ⟨i, hi⟩ := List.mem_iff_getElem?.mp hhost
  obtain rfl : host.addr = source := haddr.trans hsource
  have hin : msg ∈ (writtenTo i host.addr target acts).filter fun msg => msg.content ≠ [] := by
    rw [← h.filterMap_sent (hsized i) hi target]
    exact List.mem_append_left _ (List.mem_filterMap.mpr ⟨p, hp, hheard⟩)
  obtain ⟨hin, hcontent⟩ := List.mem_filter.mp hin
  exact ⟨i, host, hi, rfl, hin, by simpa using hcontent⟩

theorem Inv.once (h : Inv cfg cb acts n) (hcb : cb.onMessage = true)
    (hsized : ∀ w ∈ written i acts, w.Sized cfg) (hj : n.hosts[j]? = some (.server target m))
    (hi : n.hosts[i]? = some host)
    (hdup : ∀ p ∈ n.net.duplicated, ¬ Between host.addr target p) :
    m.messages.filter (fun msg => msg.remoteAddr = host.addr) <+~
      writtenTo i host.addr target acts := by
  obtain ⟨rest, harrived, -⟩ := h.filterMap_arrived hcb hj host.addr
  have hheard : m.messages.filter (fun msg => msg.remoteAddr = host.addr) <+~
      n.net.arrived.filterMap (heard cfg host.addr target) := by
    rw [harrived]
    exact (List.sublist_append_left _ _).subperm
  have harrives : n.net.arrived.filterMap (heard cfg host.addr target) <+~
      n.net.sent.filterMap (heard cfg host.addr target) := h.accounted.subperm (heard_eq_none hdup)
  have hsent : n.net.sent.filterMap (heard cfg host.addr target) <+~
      (writtenTo i host.addr target acts).filter fun msg => msg.content ≠ [] := by
    rw [← h.filterMap_sent hsized hi target]
    exact (List.sublist_append_left _ _).subperm
  exact ((hheard.trans harrives).trans hsent).trans List.filter_sublist.subperm

theorem Inv.all (h : Inv cfg cb acts n) (hcb : cb.onMessage = true)
    (hsized : ∀ w ∈ written i acts, w.Sized cfg) (hj : n.hosts[j]? = some (.server target m))
    (hi : n.hosts[i]? = some host) (hquiet : n.Quiet host target m) :
    m.messages.filter (fun msg => msg.remoteAddr = host.addr) ~
      (writtenTo i host.addr target acts).filter fun msg => msg.content ≠ [] := by
  obtain ⟨rest, harrived, hrest⟩ := h.filterMap_arrived hcb hj host.addr
  have hall : n.net.arrived.filterMap (heard cfg host.addr target) ~
      n.net.sent.filterMap (heard cfg host.addr target) :=
    h.accounted.perm (heard_eq_none hquiet.duplicated) (heard_eq_none hquiet.lost)
      (heard_eq_none hquiet.wire)
  have hsent := h.filterMap_sent hsized hi target
  rw [hquiet.outstanding, List.filterMap_nil, List.append_nil] at hsent
  rwa [harrived, hrest hquiet.inFlight, List.append_nil, hsent] at hall

/-- **What the users hear of each other.**  In every state of every run, and for every server with
`onMessage`: each of its messages was written by the user of the host at the address that it comes from,
for this server; none is heard more often than it was written, unless the network has duplicated a
packet between the two; and when nothing between them is lost, duplicated or under way, exactly the
messages with a payload are heard. -/
theorem heard_of_run (hcb : cb.onMessage = true) (h : Run (step cfg cb) (Sized cfg) create acts n)
    (hj : n.hosts[j]? = some (.server target m)) : Heard acts n target m := by
  have hI : Inv cfg cb acts n := inv_of_run h
  refine ⟨?_, fun i host hi hdup => hI.once hcb (sized_of_run h i) hj hi hdup,
    fun i host hi hquiet => hI.all hcb (sized_of_run h i) hj hi hquiet⟩
  intro msg hmsg
  obtain ⟨rest, harrived, -⟩ := hI.filterMap_arrived hcb hj msg.remoteAddr
  have hmem : msg ∈ n.net.arrived.filterMap (heard cfg msg.remoteAddr target) := by
    rw [harrived]
    exact List.mem_append_left _ (List.mem_filter.mpr ⟨hmsg, by simp⟩)
  obtain ⟨p, hp, hheard⟩ := List.mem_filterMap.mp hmem
  have hsent : p ∈ n.net.sent :=
    hI.accounted.mem_sent (List.mem_append_right _ (List.mem_append_right _ hp))
  exact hI.written_of_heard (sized_of_run h) hsent hheard

/-- Of two datagrams one is lost. -/
def oneLost : List (UdpNetworkAct ℕ) :=
  [.bindServer 80, .bindClient 7, .client 1 (.write 80 [0] [21, 22] none),
    .client 1 (.write 80 [0] [23] none), .lose ⟨7, ⟨80, [0, 21, 22]⟩⟩,
    .server 0 (.datagram ⟨7, [0, 23]⟩), .server 0 .invoke, .server 0 (.run 0)]

theorem heard_oneLost :
    ∃ n m, Run (step .shipped .both) (Sized .shipped) create oneLost n ∧
      n.hosts[0]? = some (.server 80 m) ∧ m.messages = [⟨7, [0], 1, [23]⟩] ∧
      Heard oneLost n 80 m := by
  have h := Run.of_execWhen (step .shipped .both) (Sized .shipped) create oneLost (by decide +kernel)
  have hserver : ∃ host, ((execWhen (step .shipped .both) (Sized .shipped) create oneLost).get
      (by decide +kernel)).hosts[0]? = some host ∧
        (match host with
          | .server a m => decide (a = 80 ∧ m.messages = [⟨7, [0], 1, [23]⟩])
          | .client _ _ => false) = true :=
    (Option.any_eq_true _ _).mp (by decide +kernel)
  obtain ⟨host, hhost, htold⟩ := hserver
  cases host with
  | server a m =>
      obtain ⟨rfl, hmessages⟩ := of_decide_eq_true htold
      exact ⟨_, m, h, hhost, hmessages, heard_of_run rfl h hhost⟩
  | client a m => cases htold

end UdpNetwork

end AsioTcpFrame
