import AsioTcpFrame.Config

/-! # Header and payload of a packet

A packet carries `HD_LEN` bytes of header data and then the payload.  `ClientTCP::write`,
`ServerTCP::write` and `ServerTCP::broadcast` put the two together (`pack`); the
`read_callback`s of `ClientTCP` (one for each constructor) and of `ServerTCP` take them apart
again (`unpack`).

`unpack` works on the memory at `content` and returns what the callback does, in order: the
bytes it reads and the user callbacks it calls.  The length of the payload goes through an
`int`, and a packet that is too short is reported but not dropped.  So a packet is split as it
should be exactly when it holds a header and its payload is shorter than `2 ^ 31`, and the round
trip from a writer has the same bound (`Endpoint.readCallback_splits_iff`). -/

namespace AsioTcpFrame

/-- A `Session *`. -/
abbrev Addr := ℕ

/-- Which of the user's callbacks are set. -/
structure Callbacks where
  onMessage : Bool
  onError : Bool

/-- Both set. -/
def Callbacks.both : Callbacks := ⟨true, true⟩

/-- What a `read_callback` does: it reads `size` bytes at an offset from `content`, or calls the
user.  `onMessage` hands out the address of the payload, as an offset from `content`. -/
inductive Effect where
  | load (offset size : ℕ)
  | onError (session : Option Addr) (message : String)
  | onMessage (session : Option Addr) (head : List Byte) (length : ℕ) (content : ℕ)
deriving DecidableEq, Repr

namespace Effect

/-- A call of the user's code. -/
def isCall : Effect → Bool
  | load _ _ => false
  | _ => true

/-- No byte outside the `length` bytes at `content` is read or shown to the user. -/
def InFrame (length : ℕ) : Effect → Prop
  | load offset size => offset + size ≤ length
  | onMessage _ _ size offset => offset + size ≤ length
  | onError _ _ => True

end Effect

/-- The calls of the user's code among the effects. -/
def userCalls (es : List Effect) : List Effect := es.filter Effect.isCall

/-- `_error`. -/
def Callbacks.error (cb : Callbacks) (session : Option Addr) (message : String) : List Effect :=
  if cb.onError then [.onError session message] else []

/-- `_message`. -/
def Callbacks.message (cb : Callbacks) (session : Option Addr) (head : List Byte) (length : ℕ)
    (content : ℕ) : List Effect :=
  if cb.onMessage then [.onMessage session head length content] else []

/-- `int bodylen = length - HD_LEN`. -/
def bodyLength (hdLen length : ℕ) : ℤ := toInt (toSize (length - hdLen))

/-- The common body of the `read_callback`s: a packet that is too short is reported, and then
treated like any other. -/
def unpack (hdLen : ℕ) (cb : Callbacks) (session : Option Addr) (content : ℕ → Byte) (length : ℕ) :
    List Effect :=
  (if bodyLength hdLen length < 0 then cb.error session "read failed: content is too short"
    else []) ++
  .load 0 hdLen ::
  cb.message session ((List.range hdLen).map content) (toSize (bodyLength hdLen length)) hdLen

/-- The common body of the three writers: the length and the bytes given to `Session::write`. -/
def pack (hdLen : ℕ) (head payload : List Byte) : ℕ × List Byte :=
  (toSize (payload.length + hdLen), head ++ payload)

namespace ClientTCP

/-- The `read_callback` of a client with its own `io_context`. -/
def readCallback (hdLen : ℕ) (cb : Callbacks) (content : ℕ → Byte) (length : ℕ) : List Effect :=
  unpack hdLen cb none content length

/-- The `read_callback` of a client on the caller's `io_context`. -/
def readCallbackOn (hdLen : ℕ) (cb : Callbacks) (content : ℕ → Byte) (length : ℕ) : List Effect :=
  unpack hdLen cb none content length

def write (hdLen : ℕ) (head payload : List Byte) : ℕ × List Byte := pack hdLen head payload

end ClientTCP

namespace ServerTCP

def readCallback (hdLen : ℕ) (cb : Callbacks) (session : Addr) (content : ℕ → Byte)
    (length : ℕ) : List Effect :=
  unpack hdLen cb (some session) content length

def write (hdLen : ℕ) (head payload : List Byte) : ℕ × List Byte := pack hdLen head payload

def broadcast (hdLen : ℕ) (head payload : List Byte) : ℕ × List Byte := pack hdLen head payload

end ServerTCP

/-- The three places where packets are taken apart. -/
inductive Endpoint where
  | client
  | clientOn
  | server (session : Addr)

/-- The three places where packets are put together. -/
inductive Writer where
  | client
  | server
  | broadcast

def Endpoint.readCallback (hdLen : ℕ) (cb : Callbacks) (content : ℕ → Byte) (length : ℕ) :
    Endpoint → List Effect
  | client => ClientTCP.readCallback hdLen cb content length
  | clientOn => ClientTCP.readCallbackOn hdLen cb content length
  | server session => ServerTCP.readCallback hdLen cb session content length

/-- The `Session *` the user is given: only a server gives one. -/
def Endpoint.session : Endpoint → Option Addr
  | server session => some session
  | _ => none

def Writer.write (hdLen : ℕ) (head payload : List Byte) : Writer → ℕ × List Byte
  | client => ClientTCP.write hdLen head payload
  | server => ServerTCP.write hdLen head payload
  | broadcast => ServerTCP.broadcast hdLen head payload

theorem Endpoint.readCallback_eq (e : Endpoint) (hdLen : ℕ) (cb : Callbacks) (content : ℕ → Byte)
    (length : ℕ) :
    e.readCallback hdLen cb content length = unpack hdLen cb e.session content length := by
  cases e <;> rfl

theorem Writer.write_eq (w : Writer) (hdLen : ℕ) (head payload : List Byte) :
    w.write hdLen head payload = pack hdLen head payload := by
  cases w <;> rfl

/-! ### What `unpack` does -/

section unpack
variable {hdLen length : ℕ} {session : Option Addr} {content : ℕ → Byte}

theorem bodyLength_of_fits (h : hdLen ≤ length) (hl : length - hdLen < 2 ^ 31) :
    bodyLength hdLen length = (length - hdLen : ℕ) := by
  unfold bodyLength
  rw [toInt_toSize, toInt_of_lt (by omega) (by omega), Nat.cast_sub h]

theorem userCalls_unpack_neg (h : bodyLength hdLen length < 0) :
    userCalls (unpack hdLen .both session content length) =
      [.onError session "read failed: content is too short",
        .onMessage session ((List.range hdLen).map content) (toSize (bodyLength hdLen length))
          hdLen] := by
  simp only [unpack, h, if_true, userCalls, Callbacks.error, Callbacks.message, Callbacks.both]
  rfl

theorem userCalls_unpack_nonneg (h : ¬ bodyLength hdLen length < 0) :
    userCalls (unpack hdLen .both session content length) =
      [.onMessage session ((List.range hdLen).map content) (toSize (bodyLength hdLen length))
        hdLen] := by
  simp only [unpack, h, if_false, userCalls, Callbacks.message, Callbacks.both, if_true]
  rfl

/-- The one message of a packet, with the right length, is sent only when that length fits in
an `int`. -/
theorem userCalls_unpack_iff (session : Option Addr) (content : ℕ → Byte) (h : hdLen ≤ length) :
    userCalls (unpack hdLen .both session content length) =
      [.onMessage session ((List.range hdLen).map content) (length - hdLen) hdLen] ↔
    length - hdLen < 2 ^ 31 := by
  constructor
  · intro hcalls
    by_cases hneg : bodyLength hdLen length < 0
    · rw [userCalls_unpack_neg hneg] at hcalls
      simp at hcalls
    · rw [userCalls_unpack_nonneg hneg] at hcalls
      have hsize : toSize (bodyLength hdLen length) = length - hdLen := by
        simpa using hcalls
      have hlt : bodyLength hdLen length < 2 ^ 31 := toInt_lt _
      have hcast := toSize_of_nonneg (x := bodyLength hdLen length) (by omega) (by omega)
      omega
  · intro hfits
    have hbody := bodyLength_of_fits h hfits
    rw [userCalls_unpack_nonneg (by omega), hbody, toSize_natCast (by omega)]

end unpack

/-! ### When a packet is split right -/

/-- What a `read_callback` should do with a packet of `length` bytes at `content`. -/
structure Splits (hdLen : ℕ) (session : Option Addr) (content : ℕ → Byte) (length : ℕ)
    (es : List Effect) : Prop where
  whole : hdLen ≤ length → userCalls es =
    [.onMessage session ((List.range hdLen).map content) (length - hdLen) hdLen]
  short : length < hdLen → ∃ message, userCalls es = [.onError session message]
  inside : ∀ e ∈ es, e.InFrame length

theorem unpack_inside {hdLen length : ℕ} {session : Option Addr} {content : ℕ → Byte}
    (h : hdLen ≤ length) (hl : length - hdLen < 2 ^ 31) :
    ∀ e ∈ unpack hdLen .both session content length, e.InFrame length := by
  have hbody := bodyLength_of_fits h hl
  have hsize : toSize (bodyLength hdLen length) = length - hdLen := by
    rw [hbody, toSize_natCast (by omega)]
  have hneg : ¬ bodyLength hdLen length < 0 := by omega
  intro e he
  simp only [unpack, hneg, if_false, List.nil_append, Callbacks.message, Callbacks.both, if_true,
    List.mem_cons, List.not_mem_nil, or_false, hsize] at he
  rcases he with rfl | rfl
  · simp only [Effect.InFrame]; omega
  · simp only [Effect.InFrame]; omega

theorem splits_unpack_iff {hdLen length : ℕ}
    (session : Option Addr) (content : ℕ → Byte) :
    Splits hdLen session content length (unpack hdLen .both session content length) ↔
      hdLen ≤ length ∧ length - hdLen < 2 ^ 31 := by
  constructor
  · intro hs
    rcases Nat.lt_or_ge length hdLen with hshort | hge
    · -- the short packet is handed on all the same, whether it is reported or not
      obtain ⟨message, hcalls⟩ := hs.short hshort
      by_cases hneg : bodyLength hdLen length < 0
      · rw [userCalls_unpack_neg hneg] at hcalls
        simp at hcalls
      · rw [userCalls_unpack_nonneg hneg] at hcalls
        simp at hcalls
    · exact ⟨hge, (userCalls_unpack_iff _ _ hge).mp (hs.whole hge)⟩
  · rintro ⟨hge, hfits⟩
    exact ⟨fun _ => (userCalls_unpack_iff _ _ hge).mpr hfits, fun h => by omega,
      unpack_inside hge hfits⟩

/-- The user is given `head` and a pointer to the bytes of `payload`. -/
def Delivers (hdLen : ℕ) (session : Option Addr) (content : ℕ → Byte) (head payload : List Byte)
    (es : List Effect) : Prop :=
  userCalls es = [.onMessage session head payload.length hdLen] ∧
    (List.range payload.length).map (fun i => content (hdLen + i)) = payload

/-- The bytes `bytes` are at `content`. -/
def Holds (content : ℕ → Byte) (bytes : List Byte) : Prop :=
  ∀ i (h : i < bytes.length), content i = bytes[i]

theorem Holds.head {content : ℕ → Byte} {head payload : List Byte}
    (h : Holds content (head ++ payload)) : (List.range head.length).map content = head := by
  apply List.ext_getElem (by simp)
  intro i h₁ h₂
  simp only [List.getElem_map, List.getElem_range]
  rw [h i (by simp; omega), List.getElem_append_left h₂]

theorem Holds.payload {content : ℕ → Byte} {head payload : List Byte}
    (h : Holds content (head ++ payload)) :
    (List.range payload.length).map (fun i => content (head.length + i)) = payload := by
  apply List.ext_getElem (by simp)
  intro i h₁ h₂
  simp only [List.getElem_map, List.getElem_range]
  rw [h (head.length + i) (by simp; omega), List.getElem_append_right (by omega)]
  simp

theorem head_eq_take {hdLen : ℕ} {content : List Byte} (h : hdLen ≤ content.length) :
    (List.range hdLen).map (fun k => content.getD k 0) = content.take hdLen := by
  have hmem : Holds (fun k => content.getD k 0) (content.take hdLen ++ content.drop hdLen) := by
    intro k hk
    rw [List.take_append_drop] at hk
    simp only [List.take_append_drop]
    rw [List.getD_eq_getElem?_getD, List.getElem?_eq_getElem hk, Option.getD_some]
  have hlen : (content.take hdLen).length = hdLen := List.length_take_of_le h
  rw [← hmem.head, hlen]

theorem delivers_unpack_iff {hdLen : ℕ} (session : Option Addr) {content : ℕ → Byte}
    {head payload : List Byte} (hhead : head.length = hdLen)
    (hl : hdLen + payload.length < 2 ^ 64) (hmem : Holds content (head ++ payload)) :
    Delivers hdLen session content head payload
      (unpack hdLen .both session content (pack hdLen head payload).1) ↔
    payload.length < 2 ^ 31 := by
  have hlen : (pack hdLen head payload).1 = hdLen + payload.length := by
    have hsize := toSize_natCast (n := payload.length + hdLen) (by omega)
    push_cast at hsize
    rw [pack, hsize, Nat.add_comm]
  have hbytes : (List.range hdLen).map content = head := by rw [← hhead]; exact hmem.head
  have hiff := userCalls_unpack_iff session content (Nat.le_add_right hdLen payload.length)
  rw [hbytes, Nat.add_sub_cancel_left] at hiff
  rw [hlen, Delivers, hiff]
  apply and_iff_left
  rw [← hhead]
  exact hmem.payload

/-- **When packets are split right.**  At every receiver a packet of any 64-bit length is split
as it should be exactly when it holds a full header and its payload has fewer than `2 ^ 31`
bytes; and what a writer was given is what the receiver's `onMessage` gets exactly when the
payload has fewer than `2 ^ 31` bytes. -/
theorem Endpoint.readCallback_splits_iff (e : Endpoint) (hdLen : ℕ) :
    (∀ (content : ℕ → Byte) (length : ℕ), length < 2 ^ 64 →
      (Splits hdLen e.session content length (e.readCallback hdLen .both content length) ↔
        hdLen ≤ length ∧ length - hdLen < 2 ^ 31)) ∧
    (∀ (w : Writer) (content : ℕ → Byte) (head payload : List Byte), head.length = hdLen →
      hdLen + payload.length < 2 ^ 64 → Holds content (w.write hdLen head payload).2 →
      (Delivers hdLen e.session content head payload
          (e.readCallback hdLen .both content (w.write hdLen head payload).1) ↔
        payload.length < 2 ^ 31)) := by
  constructor
  · intro content length _
    rw [e.readCallback_eq]
    exact splits_unpack_iff e.session content
  · intro w content head payload hhead hl hmem
    rw [w.write_eq] at hmem ⊢
    rw [e.readCallback_eq]
    exact delivers_unpack_iff e.session hhead hl hmem

/-- A packet with one byte of header and two of payload, at a server. -/
theorem Endpoint.readCallback_splits_shipped :
    Splits 1 (some 7) (fun i => [5, 6, 8].getD i 0) 3
      (ServerTCP.readCallback 1 .both 7 (fun i => [5, 6, 8].getD i 0) 3) ∧
    Delivers 1 (some 7) (fun i => [5, 6, 8].getD i 0) [5] [6, 8]
      (ServerTCP.readCallback 1 .both 7 (fun i => [5, 6, 8].getD i 0)
        (ServerTCP.write 1 [5] [6, 8]).1) := by
  obtain ⟨hsplits, hdelivers⟩ := Endpoint.readCallback_splits_iff (.server 7) 1
  refine ⟨(hsplits _ 3 (by decide)).mpr (by decide), ?_⟩
  exact (hdelivers .server _ [5] [6, 8] rfl (by decide) (by unfold Holds; decide)).mpr (by decide)

/-- An empty packet is reported and handed on, and one whose payload has `2 ^ 31` bytes is
reported as too short and handed on with a length of almost `2 ^ 64`. -/
theorem Endpoint.readCallback_not_splits :
    ¬ Splits 1 (some 7) (fun _ => 0) 0 (ServerTCP.readCallback 1 .both 7 (fun _ => 0) 0) ∧
    ServerTCP.readCallback 1 .both 7 (fun _ => 0) 0 =
      [.onError (some 7) "read failed: content is too short", .load 0 1,
        .onMessage (some 7) [0] (2 ^ 64 - 1) 1] ∧
    ¬ Splits 1 (some 7) (fun _ => 0) (2 ^ 31 + 1)
      (ServerTCP.readCallback 1 .both 7 (fun _ => 0) (2 ^ 31 + 1)) := by
  refine ⟨fun h => ?_, by decide, fun h => ?_⟩
  · obtain ⟨message, hcalls⟩ := h.short (by decide)
    have hlen : (userCalls _).length = 1 := congrArg List.length hcalls
    exact absurd hlen (by decide)
  · have hlen : (userCalls _).length = 1 := congrArg List.length (h.whole (by decide))
    exact absurd hlen (by decide)

end AsioTcpFrame
