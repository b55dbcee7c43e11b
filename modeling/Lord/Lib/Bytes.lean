import Lord.Lib.Error
import Mathlib.Data.List.Basic
import Mathlib.Data.UInt

/-! Byte strings, and writes that may stop on the way. -/

namespace Lord

/-- A byte string, the model of `Vec<u8>` and `&[u8]`. -/
abbrev Bytes := List UInt8

/-- Thirty-two bytes, the model of `[u8; 32]`. -/
abbrev Bytes32 := { bytes : Bytes // bytes.length = 32 }

instance lawfulBEqBytes32 : LawfulBEq Bytes32 := inferInstance

/-- One byte, thirty-two times. -/
abbrev Bytes32.replicate (byte : UInt8) : Bytes32 := ⟨List.replicate 32 byte, List.length_replicate⟩

/-- A write that fails when some of its bytes are written, or all of them at the sync. -/
structure WriteFault where
  written : Nat
  error : Error

/-- `write_all` and `sync_all`: the result, and the bytes that reach the file. -/
def writeAll (fault : Option WriteFault) (data : Bytes) : Result Unit × Bytes :=
  match fault with
  | none => (.ok (), data)
  | some fault => (.error fault.error, data.take fault.written)

@[simp] theorem writeAll_none (data : Bytes) : writeAll none data = (.ok (), data) := rfl

/-- The content of a file after a write through a handle that stands at its start. -/
def overwrite (bytes data : Bytes) : Bytes := data ++ bytes.drop data.length

@[simp] theorem overwrite_nil (data : Bytes) : overwrite [] data = data := by
  simp [overwrite]

theorem writeAll_ok {fault : Option WriteFault} {data : Bytes}
    (h : (writeAll fault data).1 = .ok ()) : (writeAll fault data).2 = data := by
  cases fault with
  | none => rfl
  | some fault => cases h

end Lord
