import AsioTcpFrame.Lib.Window
import AsioTcpFrame.Config

/-! # `asio::streambuf`

The memory of an `asio::basic_streambuf`: a vector of bytes with the offsets of its get and put
pointers.  The bytes from `gptr` to `pptr` are the input sequence (`data`), the rest up to
`epptr` is room for output.  The vector is in a heap block; a `resize` beyond its capacity takes
a new block, and may fail.  Whether the allocator gives a block, and how much more than was
asked for, is the parameter `grow`.

`WF` is the state of a buffer whose pointers are in order.  Where they are, `prepare` keeps the
data and makes room for `n` bytes behind them, or throws (`prepare_returns`, `prepare_throws`).
But it may take a new block, and when it moves the data to the front it writes over what was
there.

`egptr` is always `pptr` when it matters, and is left out. -/

namespace AsioTcpFrame

open Window

structure Streambuf where
  /-- The heap block of the vector. -/
  block : ℕ
  bytes : List Byte
  capacity : ℕ
  gptr : ℕ
  pptr : ℕ
  epptr : ℕ
  maxSize : ℕ
deriving DecidableEq, Repr

namespace Streambuf

/-- `buffer_delta`. -/
def bufferDelta : ℕ := 128

/-- The constructor, with the default maximal size. -/
def create : Streambuf where
  block := 0
  bytes := List.replicate bufferDelta 0
  capacity := bufferDelta
  gptr := 0
  pptr := 0
  epptr := bufferDelta
  maxSize := 2 ^ 64 - 1

/-- `size()`. -/
def size (sb : Streambuf) : ℕ := toSize ((sb.pptr : ℤ) - sb.gptr)

/-- The bytes that `data()` refers to. -/
def data (sb : Streambuf) : List Byte := window sb.bytes sb.gptr sb.size

/-- `buffer_.resize(n)`; `grow` is what the allocator gives beyond `n` when it is asked. -/
def resize (grow : Option ℕ) (sb : Streambuf) (n : ℕ) : Option Streambuf :=
  let bytes := sb.bytes.take n ++ List.replicate (n - sb.bytes.length) 0
  if n ≤ sb.capacity then some { sb with bytes := bytes }
  else grow.map fun more =>
    { sb with block := sb.block + 1, bytes := bytes, capacity := n + more }

/-- The `memmove` of `reserve`: `n` bytes from `gptr` on go to the front. -/
def moveDown (sb : Streambuf) (n : ℕ) : Streambuf :=
  { sb with bytes := overwrite sb.bytes 0 (window sb.bytes sb.gptr n) }

/-- `setg` and `setp` at the end of `reserve`. -/
def setPointers (sb : Streambuf) (pnext pend : ℕ) : Streambuf :=
  { sb with gptr := 0, pptr := pnext, epptr := pend }

/-- `reserve(n)`, and whether it returns; otherwise it throws. -/
def reserve (grow : Option ℕ) (sb : Streambuf) (n : ℕ) : Streambuf × Bool :=
  if n ≤ toSize ((sb.epptr : ℤ) - sb.pptr) then (sb, true)
  else
    let pnext := if 0 < sb.gptr then sb.size else sb.pptr
    let sb' := if 0 < sb.gptr then sb.moveDown sb.size else sb
    if toSize ((sb.epptr : ℤ) - pnext) < n then
      if n ≤ sb.maxSize ∧ pnext ≤ sb.maxSize - n then
        match sb'.resize grow (max (pnext + n) 1) with
        | some sb'' => (sb''.setPointers pnext (pnext + n), true)
        | none => (sb', false)
      else (sb', false)
    else (sb'.setPointers pnext sb.epptr, true)

/-- `prepare(n)`: the room it gives begins at `pptr`. -/
def prepare (grow : Option ℕ) (sb : Streambuf) (n : ℕ) : Streambuf × Bool := sb.reserve grow n

/-- `memcpy` to what `prepare` gave. -/
def store (sb : Streambuf) (xs : List Byte) : Streambuf :=
  { sb with bytes := overwrite sb.bytes sb.pptr xs }

/-- `commit(n)`: `pbump` takes an `int`. -/
def commit (sb : Streambuf) (n : ℕ) : Streambuf :=
  let n := min n (toSize ((sb.epptr : ℤ) - sb.pptr))
  { sb with pptr := toSize (sb.pptr + toInt n) }

/-- `consume(n)`: `gbump` takes an `int`. -/
def consume (sb : Streambuf) (n : ℕ) : Streambuf :=
  let n := if sb.pptr < sb.gptr + n then sb.size else n
  { sb with gptr := toSize (sb.gptr + toInt n) }

/-- The pointers are in order. -/
structure WF (sb : Streambuf) : Prop where
  get : sb.gptr ≤ sb.pptr
  put : sb.pptr ≤ sb.epptr
  pend : sb.epptr = sb.bytes.length
  capacity : sb.bytes.length ≤ sb.capacity
  size : sb.bytes.length ≤ sb.maxSize
  maxSize : sb.maxSize < 2 ^ 64

variable {sb : Streambuf} {grow : Option ℕ} {n k : ℕ} {xs : List Byte}

theorem wf_create : WF create := by
  constructor <;> simp [create, bufferDelta]

theorem WF.size_eq (h : WF sb) : sb.size = sb.pptr - sb.gptr := by
  have := h.get; have := h.put; have := h.pend; have := h.size; have := h.maxSize
  unfold Streambuf.size toSize
  omega

theorem WF.room_eq (h : WF sb) : toSize ((sb.epptr : ℤ) - sb.pptr) = sb.epptr - sb.pptr := by
  have := h.put; have := h.pend; have := h.size; have := h.maxSize
  unfold toSize
  omega

theorem WF.data_eq (h : WF sb) : sb.data = window sb.bytes sb.gptr (sb.pptr - sb.gptr) := by
  rw [data, h.size_eq]

theorem WF.length_data (h : WF sb) : sb.data.length = sb.pptr - sb.gptr := by
  have := h.get; have := h.put; have := h.pend
  rw [h.data_eq, length_window (by omega)]

/-! ### `prepare` -/

/-- There is room for `n` bytes behind `pptr`. -/
def Room (sb : Streambuf) (n : ℕ) : Prop := sb.pptr + n ≤ sb.epptr

/-- `prepare(n)` gets the memory it needs. -/
def Fits (grow : Option ℕ) (sb : Streambuf) (n : ℕ) : Prop :=
  sb.pptr - sb.gptr + n ≤ sb.maxSize ∧
    (sb.pptr - sb.gptr + n ≤ sb.capacity ∨ grow.isSome = true)

instance : Decidable (sb.Room n) := by unfold Room; infer_instance
instance : Decidable (sb.Fits grow n) := by unfold Fits; infer_instance

theorem prepare_room (h : WF sb) (hroom : sb.Room n) : sb.prepare grow n = (sb, true) := by
  have := h.put
  unfold Room at hroom
  rw [prepare, reserve, h.room_eq, if_pos (by omega)]

/-- The bytes after the `memmove` of `reserve`, if there is one. -/
def moved (sb : Streambuf) : Streambuf := if 0 < sb.gptr then sb.moveDown sb.size else sb

theorem moved_of_front (h : sb.gptr = 0) : sb.moved = sb := by
  rw [moved, if_neg (by omega)]

/-- The `memmove` brings the data to the front, and touches nothing else of the buffer. -/
theorem WF.moved (h : WF sb) :
    sb.moved = { sb with bytes := sb.moved.bytes } ∧ sb.moved.bytes.length = sb.bytes.length ∧
      window sb.moved.bytes 0 (sb.pptr - sb.gptr) = sb.data := by
  have hget := h.get; have hput := h.put; have hpend := h.pend
  have hlen : (window sb.bytes sb.gptr (sb.pptr - sb.gptr)).length = sb.pptr - sb.gptr :=
    length_window (by omega)
  unfold Streambuf.moved
  split
  · refine ⟨rfl, ?_, ?_⟩
    · rw [moveDown, h.size_eq, length_overwrite (by omega)]
    · have hself : window (overwrite sb.bytes 0 (window sb.bytes sb.gptr (sb.pptr - sb.gptr))) 0
          (window sb.bytes sb.gptr (sb.pptr - sb.gptr)).length =
            window sb.bytes sb.gptr (sb.pptr - sb.gptr) := window_overwrite (Nat.zero_le _)
      rw [hlen] at hself
      rw [moveDown, h.size_eq, h.data_eq]
      exact hself
  · next hfront =>
    have hzero : sb.gptr = 0 := by omega
    exact ⟨rfl, rfl, by rw [h.data_eq, hzero]⟩

theorem WF.window_moved (h : WF sb) {off m : ℕ} (hoff : sb.gptr = 0 ∨ sb.pptr - sb.gptr ≤ off) :
    window sb.moved.bytes off m = window sb.bytes off m := by
  have hget := h.get; have hput := h.put; have hpend := h.pend
  by_cases hfront : sb.gptr = 0
  · rw [moved_of_front hfront]
  · have hlen : (window sb.bytes sb.gptr (sb.pptr - sb.gptr)).length = sb.pptr - sb.gptr :=
      length_window (by omega)
    rw [Streambuf.moved, if_pos (by omega), moveDown, h.size_eq,
      window_overwrite_of_ge (by omega) (Nat.zero_le _)]

theorem WF.wf_moved (h : WF sb) : sb.moved.WF := by
  obtain ⟨hmoved, hlen, -⟩ := h.moved
  have hpend := h.pend; have hcap := h.capacity; have hsize := h.size
  rw [hmoved]
  exact ⟨h.get, h.put, by rw [hlen]; exact hpend, by rw [hlen]; exact hcap,
    by rw [hlen]; exact hsize, h.maxSize⟩

theorem WF.size_moved (h : WF sb) : sb.moved.size = sb.size := by
  rw [h.moved.1]
  rfl

/-- The queued bytes repeat with the period `gptr`; so they do when `gptr` is at the front, or
behind as many bytes as are queued. -/
def Repeats (sb : Streambuf) : Prop :=
  sb.data.drop sb.gptr = sb.data.take (sb.data.length - sb.gptr)

instance : Decidable sb.Repeats := by unfold Repeats; infer_instance

/-- The `memmove` leaves the bytes between the pointers as they were exactly when they repeat. -/
theorem data_moved_iff (h : WF sb) : sb.moved.data = sb.data ↔ sb.Repeats := by
  have hget := h.get; have hput := h.put; have hpend := h.pend
  have hlen := h.length_data
  by_cases hfront : sb.gptr = 0
  · rw [moved_of_front hfront, Repeats, hfront, List.drop_zero, Nat.sub_zero, List.take_length]
  · have hmoved : sb.moved.data = sb.data.drop sb.gptr ++ sb.data.drop (sb.data.length - sb.gptr) := by
      rw [moved, if_pos (by omega)]
      show window (overwrite sb.bytes 0 (window sb.bytes sb.gptr sb.size)) sb.gptr sb.size = _
      have hwindow : (window sb.bytes sb.gptr (sb.pptr - sb.gptr)).length = sb.pptr - sb.gptr :=
        length_window (by omega)
      rw [h.size_eq, window_overwrite_front hwindow, hlen, h.data_eq]
    have hsplit : sb.data = sb.data.take (sb.data.length - sb.gptr) ++
        sb.data.drop (sb.data.length - sb.gptr) := (List.take_append_drop _ _).symm
    rw [hmoved, Repeats]
    constructor
    · intro heq
      exact List.append_cancel_right (heq.trans hsplit)
    · intro hrep
      rw [hrep, ← hsplit]

theorem Repeats.window_moved (hrep : sb.Repeats) (h : WF sb) {m : ℕ} (hm : m ≤ sb.data.length) :
    window sb.moved.bytes sb.gptr m = window sb.bytes sb.gptr m := by
  have hdata := (data_moved_iff h).mpr hrep
  rw [h.length_data] at hm
  rw [h.wf_moved.data_eq, h.data_eq, h.moved.1] at hdata
  rw [← take_window hm, ← take_window hm, hdata]

/-- `reserve` without the detour through unsigned arithmetic. -/
theorem prepare_eq (h : WF sb) (hroom : ¬ sb.Room n) :
    sb.prepare grow n =
      if sb.epptr - (sb.pptr - sb.gptr) < n then
        if n ≤ sb.maxSize ∧ sb.pptr - sb.gptr ≤ sb.maxSize - n then
          match sb.moved.resize grow (max (sb.pptr - sb.gptr + n) 1) with
          | some sb' => (sb'.setPointers (sb.pptr - sb.gptr) (sb.pptr - sb.gptr + n), true)
          | none => (sb.moved, false)
        else (sb.moved, false)
      else (sb.moved.setPointers (sb.pptr - sb.gptr) sb.epptr, true) := by
  have hput := h.put; have hget := h.get; have hpend := h.pend
  have hsize := h.size; have hmax := h.maxSize
  have hpnext : (if 0 < sb.gptr then sb.size else sb.pptr) = sb.pptr - sb.gptr := by
    rw [h.size_eq]; split <;> omega
  have hroom' : toSize ((sb.epptr : ℤ) - (sb.pptr - sb.gptr : ℕ)) =
      sb.epptr - (sb.pptr - sb.gptr) := by
    unfold toSize; omega
  unfold Room at hroom
  rw [prepare, reserve, h.room_eq, if_neg (by omega)]
  simp only [hpnext, hroom']
  rfl

theorem resize_grows (sb : Streambuf) (grow : Option ℕ) (hlen : sb.bytes.length ≤ n)
    (h : n ≤ sb.capacity ∨ grow.isSome = true) :
    ∃ block capacity, sb.resize grow n = some { sb with
        block := block
        bytes := sb.bytes ++ List.replicate (n - sb.bytes.length) 0
        capacity := capacity } ∧
      n ≤ capacity ∧ (n ≤ sb.capacity → block = sb.block) := by
  simp only [resize, List.take_of_length_le hlen]
  by_cases hcap : n ≤ sb.capacity
  · exact ⟨sb.block, sb.capacity, by rw [if_pos hcap], hcap, fun _ => rfl⟩
  · obtain ⟨more, rfl⟩ := Option.isSome_iff_exists.mp (h.resolve_left hcap)
    exact ⟨sb.block + 1, n + more, by rw [if_neg hcap]; rfl, by omega, fun h => absurd h hcap⟩

theorem resize_fails (hcap : ¬ n ≤ sb.capacity) (h : ¬ grow.isSome = true) :
    sb.resize grow n = none := by
  simp only [resize, if_neg hcap, Option.not_isSome_iff_eq_none.mp h, Option.map_none]

/-- **`prepare` that has to move or grow**: the data are at the front, followed by room. -/
theorem prepare_fits (h : WF sb) (hroom : ¬ sb.Room n) (hfits : sb.Fits grow n) :
    ∃ sb' more, sb.prepare grow n = (sb', true) ∧ sb'.WF ∧ sb'.Room n ∧
      sb'.bytes = sb.moved.bytes ++ more ∧ sb'.gptr = 0 ∧ sb'.pptr = sb.pptr - sb.gptr ∧
      (sb.pptr - sb.gptr + n ≤ sb.capacity → sb'.block = sb.block) := by
  have hput := h.put; have hget := h.get; have hpend := h.pend
  have hsize := h.size; have hmax := h.maxSize; have hcap := h.capacity
  obtain ⟨hmoved, hlen, -⟩ := h.moved
  obtain ⟨hm, hc⟩ := hfits
  rw [prepare_eq h hroom]
  split
  · next hgrow =>
    have hone : max (sb.pptr - sb.gptr + n) 1 = sb.pptr - sb.gptr + n := by omega
    obtain ⟨block, capacity, hresize, hle, hblock⟩ :=
      resize_grows sb.moved grow (n := sb.pptr - sb.gptr + n) (by omega)
        (by rw [hmoved]; exact hc)
    rw [if_pos (by omega), hone, hresize]
    refine ⟨_, _, rfl, ?_, le_refl _, rfl, rfl, rfl, ?_⟩
    · rw [hmoved]
      constructor <;> simp only [setPointers, List.length_append, List.length_replicate] <;> omega
    · intro hfree
      rw [hmoved] at hblock
      exact hblock hfree
  · next hspace =>
    refine ⟨_, [], rfl, ?_, ?_, (List.append_nil _).symm, rfl, rfl, ?_⟩
    · rw [hmoved]
      constructor <;> simp only [setPointers] <;> omega
    · simp only [Room, setPointers]; omega
    · rw [hmoved]; exact fun _ => rfl

/-- `prepare` that gets no memory throws, after the `memmove`. -/
theorem prepare_throws (h : WF sb) (hroom : ¬ sb.Room n) (hfits : ¬ sb.Fits grow n) :
    sb.prepare grow n = (sb.moved, false) := by
  have hput := h.put; have hget := h.get; have hpend := h.pend
  have hsize := h.size; have hmax := h.maxSize; have hcap := h.capacity
  obtain ⟨hmoved, hlen, -⟩ := h.moved
  unfold Room at hroom
  unfold Fits at hfits
  have hgrow : sb.epptr - (sb.pptr - sb.gptr) < n := by omega
  rw [prepare_eq h hroom, if_pos hgrow]
  split
  · next hm =>
    have hone : max (sb.pptr - sb.gptr + n) 1 = sb.pptr - sb.gptr + n := by omega
    have hfree : ¬ (sb.pptr - sb.gptr + n ≤ sb.capacity ∨ grow.isSome = true) :=
      fun hc => hfits ⟨by omega, hc⟩
    rw [hone, resize_fails (by rw [hmoved]; exact fun hc => hfree (Or.inl hc))
      (fun hs => hfree (Or.inr hs))]
  · rfl

/-- **`prepare` that returns** keeps the data, and gives room for `n` bytes behind them.  It keeps
the block when there is room or capacity, and writes only where it moves the data to. -/
theorem prepare_returns (h : WF sb) (hn : sb.Room n ∨ sb.Fits grow n) :
    ∃ sb', sb.prepare grow n = (sb', true) ∧ sb'.WF ∧ sb'.Room n ∧ sb'.data = sb.data ∧
      sb'.pptr = (if sb.Room n then sb.pptr else sb.pptr - sb.gptr) ∧
      (sb.Room n ∨ sb.pptr - sb.gptr + n ≤ sb.capacity → sb'.block = sb.block) ∧
      (∀ off m, off + m ≤ sb.bytes.length →
        sb.Room n ∨ sb.gptr = 0 ∨ sb.pptr - sb.gptr ≤ off →
          off + m ≤ sb'.bytes.length ∧ window sb'.bytes off m = window sb.bytes off m) := by
  by_cases hroom : sb.Room n
  · exact ⟨sb, prepare_room h hroom, h, hroom, rfl, (if_pos hroom).symm, fun _ => rfl,
      fun off m hle _ => ⟨hle, rfl⟩⟩
  · obtain ⟨sb', more, hprep, hwf, hroom', hbytes, hgptr, hpptr, hblock⟩ :=
      prepare_fits h hroom (hn.resolve_left hroom)
    obtain ⟨-, hlen, hdata⟩ := h.moved
    have hget := h.get; have hput := h.put; have hpend := h.pend
    refine ⟨sb', hprep, hwf, hroom', ?_, ?_, fun hb => hblock (hb.resolve_left hroom), ?_⟩
    · rw [hwf.data_eq, hgptr, hpptr, hbytes, Nat.sub_zero, window_append (by omega), hdata]
    · rw [hpptr, if_neg hroom]
    · intro off m hle hoff
      rw [hbytes, window_append (by omega), List.length_append]
      exact ⟨by omega, h.window_moved (hoff.resolve_left hroom)⟩

/-! ### `commit` and `consume` -/

theorem WF.store (h : WF sb) (hroom : sb.Room xs.length) :
    (sb.store xs).WF ∧ (sb.store xs).data = sb.data ∧
      window (sb.store xs).bytes sb.pptr xs.length = xs := by
  have hget := h.get; have hput := h.put; have hpend := h.pend
  unfold Room at hroom
  have hlen : (overwrite sb.bytes sb.pptr xs).length = sb.bytes.length :=
    length_overwrite (by omega)
  have hwf : (sb.store xs).WF :=
    ⟨hget, hput, hpend.trans hlen.symm, hlen.le.trans h.capacity, hlen.le.trans h.size, h.maxSize⟩
  refine ⟨hwf, ?_, window_overwrite (by omega)⟩
  rw [hwf.data_eq, h.data_eq]
  show window (overwrite sb.bytes sb.pptr xs) sb.gptr (sb.pptr - sb.gptr) = _
  exact window_overwrite_of_le (by omega) (by omega)

/-- **What is stored and committed is appended**, as long as `pbump` gets it right. -/
theorem commit_store (h : WF sb) (hroom : sb.Room xs.length) (hlt : xs.length < 2 ^ 31) :
    ((sb.store xs).commit xs.length).WF ∧
      ((sb.store xs).commit xs.length).data = sb.data ++ xs ∧
      ((sb.store xs).commit xs.length).block = sb.block ∧
      ((sb.store xs).commit xs.length).bytes = overwrite sb.bytes sb.pptr xs := by
  have hget := h.get; have hput := h.put; have hpend := h.pend
  have hsize := h.size; have hmax := h.maxSize; have hcap := h.capacity
  unfold Room at hroom
  have hlen : (overwrite sb.bytes sb.pptr xs).length = sb.bytes.length :=
    length_overwrite (by omega)
  have hcommit : (sb.store xs).commit xs.length =
      { sb with bytes := overwrite sb.bytes sb.pptr xs, pptr := sb.pptr + xs.length } := by
    have hroom' : toSize ((sb.epptr : ℤ) - sb.pptr) = sb.epptr - sb.pptr := h.room_eq
    have hmin : min xs.length (sb.epptr - sb.pptr) = xs.length := by omega
    have hint : toInt (xs.length : ℤ) = xs.length := toInt_natCast hlt
    have hadd : toSize ((sb.pptr : ℤ) + xs.length) = sb.pptr + xs.length :=
      toSize_natCast (n := sb.pptr + xs.length)
        ((hroom.trans (hpend.le.trans hsize)).trans_lt hmax)
    simp only [commit, store, hroom', hmin, hint, hadd]
  have hwf : ((sb.store xs).commit xs.length).WF := by
    rw [hcommit]
    constructor <;> simp only [hlen] <;> omega
  refine ⟨hwf, ?_, by rw [hcommit], by rw [hcommit]⟩
  have hsplit : sb.pptr + xs.length - sb.gptr = (sb.pptr - sb.gptr) + xs.length := by omega
  have hgp : sb.gptr + (sb.pptr - sb.gptr) = sb.pptr := by omega
  rw [hwf.data_eq, hcommit, h.data_eq]
  dsimp only
  rw [hsplit, window_add, hgp, window_overwrite (by omega),
    window_overwrite_of_le (by omega) (by omega)]

/-- Storing `n` bytes behind the data changes nothing in the `m` bytes at `off`. -/
def Clear (sb : Streambuf) (n off m : ℕ) : Prop :=
  if sb.Room n then off + m ≤ sb.pptr ∨ sb.pptr + n ≤ off
  else if sb.gptr = 0 then
    sb.pptr + n ≤ sb.capacity ∧ (off + m ≤ sb.pptr ∨ sb.pptr + n ≤ off)
  else sb.pptr - sb.gptr + n ≤ off

instance {off m : ℕ} : Decidable (sb.Clear n off m) := by unfold Clear; infer_instance

theorem Clear.block {off m : ℕ} (h : WF sb) (hle : off + m ≤ sb.bytes.length)
    (hclear : sb.Clear n off m) : sb.Room n ∨ sb.pptr - sb.gptr + n ≤ sb.capacity := by
  have hcap := h.capacity
  unfold Clear at hclear
  split at hclear
  · next hroom => exact Or.inl hroom
  · split at hclear
    · next hfront => exact Or.inr (by omega)
    · exact Or.inr (by omega)

theorem Clear.moved {off m : ℕ} (hclear : sb.Clear n off m) :
    sb.Room n ∨ sb.gptr = 0 ∨ sb.pptr - sb.gptr ≤ off := by
  unfold Clear at hclear
  split at hclear
  · next hroom => exact Or.inl hroom
  · split at hclear
    · next hfront => exact Or.inr (Or.inl hfront)
    · exact Or.inr (Or.inr (by omega))

theorem Clear.stored {off m : ℕ} (hclear : sb.Clear n off m) :
    off + m ≤ (if sb.Room n then sb.pptr else sb.pptr - sb.gptr) ∨
      (if sb.Room n then sb.pptr else sb.pptr - sb.gptr) + n ≤ off := by
  unfold Clear at hclear
  split at hclear
  · next hroom => simpa only [hroom, if_true] using hclear
  · next hroom =>
    simp only [hroom, if_false]
    split at hclear
    · next hfront => rw [hfront, Nat.sub_zero]; exact hclear.2
    · exact Or.inr hclear

/-- **`prepare`, `memcpy` and `commit`**: the bytes are appended to the data, and what is clear of
them is still where it was. -/
theorem prepare_store_commit (h : WF sb) (hn : sb.Room xs.length ∨ sb.Fits grow xs.length)
    (hlt : xs.length < 2 ^ 31) :
    ∃ sb', sb.prepare grow xs.length = (sb', true) ∧ ((sb'.store xs).commit xs.length).WF ∧
      ((sb'.store xs).commit xs.length).data = sb.data ++ xs ∧
      (((sb'.store xs).commit xs.length).gptr = 0 ∨
        ((sb'.store xs).commit xs.length).gptr = sb.gptr) ∧
      ∀ off m, off + m ≤ sb.bytes.length → sb.Clear xs.length off m →
        ((sb'.store xs).commit xs.length).block = sb.block ∧
        off + m ≤ ((sb'.store xs).commit xs.length).bytes.length ∧
        window ((sb'.store xs).commit xs.length).bytes off m = window sb.bytes off m := by
  obtain ⟨sb', hprep, hwf, hroom, hdata, hpptr, hblock, hkeep⟩ := prepare_returns h hn
  obtain ⟨hwf', hdata', hblock', hbytes'⟩ := commit_store hwf hroom hlt
  have hput := hwf.put; have hpend := hwf.pend
  have hgptr : sb'.gptr = 0 ∨ sb'.gptr = sb.gptr := by
    have hlen := congrArg List.length hdata
    rw [hwf.length_data, h.length_data] at hlen
    have hget := hwf.get; have hget' := h.get
    split at hpptr <;> omega
  unfold Room at hroom
  refine ⟨sb', hprep, hwf', by rw [hdata', hdata], hgptr, ?_⟩
  intro off m hle hclear
  obtain ⟨hle', hwindow⟩ := hkeep off m hle hclear.moved
  have hstored := hclear.stored
  rw [← hpptr] at hstored
  rw [hblock', hbytes', length_overwrite (by omega)]
  refine ⟨hblock (hclear.block h hle), hle', ?_⟩
  rcases hstored with hbefore | hafter
  · rw [window_overwrite_of_le hbefore (by omega), hwindow]
  · rw [window_overwrite_of_ge hafter (by omega), hwindow]

/-- **What is consumed is dropped**, as long as `gbump` gets it right. -/
theorem data_consume (h : WF sb) (hk : k ≤ sb.data.length) (hlt : k < 2 ^ 31) :
    (sb.consume k).WF ∧ (sb.consume k).data = sb.data.drop k := by
  have hget := h.get; have hput := h.put; have hpend := h.pend
  have hsize := h.size; have hmax := h.maxSize; have hcap := h.capacity
  rw [h.length_data] at hk
  have hconsume : sb.consume k = { sb with gptr := sb.gptr + k } := by
    have hint : toInt (k : ℤ) = k := toInt_natCast hlt
    have hadd : toSize ((sb.gptr : ℤ) + k) = sb.gptr + k :=
      toSize_natCast (n := sb.gptr + k) (lt_of_le_of_lt (by omega) hmax)
    have hle : ¬ sb.pptr < sb.gptr + k := by omega
    simp only [consume, hle, if_false, hint, hadd]
  have hwf : (sb.consume k).WF := by
    rw [hconsume]
    constructor <;> simp only [] <;> omega
  refine ⟨hwf, ?_⟩
  rw [hwf.data_eq, hconsume, h.data_eq, drop_window]
  dsimp only
  congr 1
  omega

end Streambuf

end AsioTcpFrame
