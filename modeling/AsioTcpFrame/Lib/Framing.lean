import Mathlib.Algebra.Order.Ring.Nat
import Mathlib.Data.List.Basic
import Mathlib.Data.List.Flatten
import Mathlib.Tactic.Ring

/-! # Length-prefixed framing

A payload is sent as its length in a fixed number of symbols, followed by the payload itself.

* `LenCodec α`: a fixed-width code for the lengths below a bound, onto the words of that width.
* `LenCodec.frame`, `LenCodec.stream`: one frame, and the frames of a list of payloads.
* `LenCodec.stream_prefix`: a stream has one reading.  When the frames of `ps`, followed by
  anything, are the frames of `qs`, then `ps` is a prefix of `qs`.
* `littleEndian w`: the lengths below `256 ^ w` in `w` bytes, lowest byte first. -/

namespace Framing

/-- A code of the numbers below `bound` by the words of length `width`. -/
structure LenCodec (α : Type*) where
  width : ℕ
  bound : ℕ
  enc : ℕ → List α
  dec : List α → ℕ
  length_enc : ∀ n, (enc n).length = width
  dec_enc : ∀ {n}, n < bound → dec (enc n) = n
  enc_dec : ∀ {l}, l.length = width → enc (dec l) = l
  dec_lt : ∀ {l}, l.length = width → dec l < bound

namespace LenCodec

variable {α : Type*} (c : LenCodec α)

attribute [simp] length_enc

/-- One payload on the wire. -/
def frame (p : List α) : List α := c.enc p.length ++ p

/-- A list of payloads on the wire. -/
def stream (ps : List (List α)) : List α := ps.flatMap c.frame

@[simp] theorem length_frame (p : List α) : (c.frame p).length = c.width + p.length := by
  simp [frame]

@[simp] theorem stream_nil : c.stream [] = [] := rfl

@[simp] theorem stream_cons (p : List α) (ps : List (List α)) :
    c.stream (p :: ps) = c.frame p ++ c.stream ps := rfl

@[simp] theorem stream_append (ps qs : List (List α)) :
    c.stream (ps ++ qs) = c.stream ps ++ c.stream qs := by simp [stream]

/-- The frames of two payloads differ where the payloads do, whatever follows them. -/
theorem frame_append_inj {p q r t : List α} (hp : p.length < c.bound) (hq : q.length < c.bound)
    (h : c.frame p ++ r = c.frame q ++ t) : p = q ∧ r = t := by
  simp only [frame, List.append_assoc] at h
  obtain ⟨hlen, hrest⟩ := List.append_inj h (by simp)
  have hl : p.length = q.length := by rw [← c.dec_enc hp, hlen, c.dec_enc hq]
  exact List.append_inj hrest hl

/-- **Unique reading**: frames that begin the frames of `qs` are those of a prefix of `qs`. -/
theorem stream_prefix (hw : 0 < c.width) {ps qs : List (List α)} {r : List α}
    (hps : ∀ p ∈ ps, p.length < c.bound) (hqs : ∀ q ∈ qs, q.length < c.bound)
    (h : c.stream ps ++ r = c.stream qs) : ps <+: qs := by
  induction ps generalizing qs with
  | nil => exact List.nil_prefix
  | cons p ps ih =>
      cases qs with
      | nil =>
          have hlen := congrArg List.length h
          simp at hlen
          omega
      | cons q qs =>
          simp only [stream_cons, List.append_assoc] at h
          obtain ⟨hpq, hrest⟩ := c.frame_append_inj (hps p (by simp)) (hqs q (by simp)) h
          subst hpq
          exact (List.prefix_cons_inj p).mpr
            (ih (fun p hp => hps p (by simp [hp])) (fun q hq => hqs q (by simp [hq])) hrest)

end LenCodec

/-! ### Little-endian lengths -/

/-- The `w` low bytes of `n`, lowest first. -/
def encodeLe : ℕ → ℕ → List UInt8
  | 0, _ => []
  | w + 1, n => UInt8.ofNat n :: encodeLe w (n / 256)

/-- The number whose bytes are `bs`, lowest first. -/
def decodeLe : List UInt8 → ℕ
  | [] => 0
  | b :: bs => b.toNat + 256 * decodeLe bs

@[simp] theorem length_encodeLe (w n : ℕ) : (encodeLe w n).length = w := by
  induction w generalizing n with
  | zero => rfl
  | succ w ih => simp [encodeLe, ih]

theorem decodeLe_encodeLe {w n : ℕ} (h : n < 256 ^ w) : decodeLe (encodeLe w n) = n := by
  induction w generalizing n with
  | zero => simp at h; simp [encodeLe, decodeLe, h]
  | succ w ih =>
      have hdiv : n / 256 < 256 ^ w := by
        rw [Nat.div_lt_iff_lt_mul (by norm_num), ← pow_succ]; exact h
      simp only [encodeLe, decodeLe, UInt8.toNat_ofNat', ih hdiv]
      omega

theorem encodeLe_decodeLe (bs : List UInt8) : encodeLe bs.length (decodeLe bs) = bs := by
  induction bs with
  | nil => rfl
  | cons b bs ih =>
      have hb : b.toNat < 256 := b.toNat_lt
      have hdiv : (b.toNat + 256 * decodeLe bs) / 256 = decodeLe bs := by omega
      have hmod : UInt8.ofNat (b.toNat + 256 * decodeLe bs) = b := by
        apply UInt8.toNat_inj.mp
        rw [UInt8.toNat_ofNat']
        omega
      simp only [List.length_cons, decodeLe, encodeLe, hdiv, hmod, ih]

theorem decodeLe_lt (bs : List UInt8) : decodeLe bs < 256 ^ bs.length := by
  induction bs with
  | nil => simp [decodeLe]
  | cons b bs ih =>
      have hb : b.toNat < 256 := b.toNat_lt
      simp only [decodeLe, List.length_cons, pow_succ]
      omega

/-- Lengths in `w` bytes, lowest byte first. -/
def littleEndian (w : ℕ) : LenCodec UInt8 where
  width := w
  bound := 256 ^ w
  enc := encodeLe w
  dec := decodeLe
  length_enc := length_encodeLe w
  dec_enc := decodeLe_encodeLe
  enc_dec {l} h := by subst h; exact encodeLe_decodeLe l
  dec_lt {l} h := by subst h; exact decodeLe_lt l

end Framing
