import AsioTcpFrame.Lib.Framing

/-! # Types and sizes of the framework

`config.h` fixes two types: `PakSize`, the unsigned integer in front of every packet, and
`PakHeadData`, the rest of the header.  The platform fixes `size_t`.  Only their sizes matter
to the code, so `Config` holds these; `Config.shipped` is the configuration of the repository
(`unsigned long long`, an empty struct, a 64-bit platform).

Bytes are `UInt8`.  The conversions between C++'s integer types that the code makes without a
cast are `toSize` (to a 64-bit unsigned) and `toInt` (to `int`). -/

namespace AsioTcpFrame

open Framing

abbrev Byte := UInt8

/-- The sizes in bytes of `PakSize`, of `size_t` and of `PakHeadData` (`HD_LEN`). -/
structure Config where
  pakSize : ℕ
  sizeT : ℕ
  hdLen : ℕ
  pakSize_pos : 0 < pakSize
  sizeT_pos : 0 < sizeT
  hdLen_pos : 0 < hdLen

/-- The configuration as shipped: 8-byte `PakSize` and `size_t`, an empty `PakHeadData`, which
still takes one byte. -/
def Config.shipped : Config := ⟨8, 8, 1, by decide, by decide, by decide⟩

/-- How a packet is put on the wire: its length as a `PakSize`, lowest byte first. -/
def Config.codec (cfg : Config) : LenCodec Byte := littleEndian cfg.pakSize

@[simp] theorem Config.codec_width (cfg : Config) : cfg.codec.width = cfg.pakSize := rfl

@[simp] theorem Config.codec_bound (cfg : Config) : cfg.codec.bound = 256 ^ cfg.pakSize := rfl

/-- What a completion handler is told went wrong: the end of the stream, or an error with a
message. -/
inductive ErrorCode where
  | eof
  | other (message : String)
deriving DecidableEq, Repr

/-- `error_code::message()`. -/
def ErrorCode.message : ErrorCode → String
  | .eof => "End of file"
  | .other message => message

/-! ### Integer conversions -/

/-- Conversion to a 64-bit unsigned integer (`size_t`, `unsigned long long`). -/
def toSize (x : ℤ) : ℕ := (x % 2 ^ 64).toNat

/-- Conversion to `int`: the low 32 bits, read as a signed number. -/
def toInt (x : ℤ) : ℤ := x.bmod (2 ^ 32)

theorem toSize_of_nonneg {x : ℤ} (h₀ : 0 ≤ x) (h : x < 2 ^ 64) : (toSize x : ℤ) = x := by
  unfold toSize; omega

theorem toSize_natCast {n : ℕ} (h : n < 2 ^ 64) : toSize n = n := by
  unfold toSize; omega

theorem toInt_of_lt {x : ℤ} (h₀ : -2 ^ 31 ≤ x) (h : x < 2 ^ 31) : toInt x = x := by
  unfold toInt; rw [Int.bmod_def]; split <;> omega

theorem toInt_natCast {n : ℕ} (h : n < 2 ^ 31) : toInt n = n :=
  toInt_of_lt (by omega) (by omega)

theorem toInt_lt (x : ℤ) : toInt x < 2 ^ 31 := by
  unfold toInt; rw [Int.bmod_def]; split <;> omega

theorem toInt_toSize (x : ℤ) : toInt (toSize x) = toInt x := by
  unfold toInt toSize; rw [Int.bmod_def, Int.bmod_def]; split <;> split <;> omega

end AsioTcpFrame
