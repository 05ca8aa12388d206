import ZedSecure.Firmware.UartDemo

/-! `mlkem_decaps_hw.c`, the driver of the ML-KEM port, and `secure_channel_hw.c` over the two
drivers. -/

namespace ZedSecure

open LittleEndian
open AeadHw (Access BusOf Device load32Le)

/-- A device that has the registers of the ML-KEM port besides those of the traffic port. -/
class KemDevice (σ : Type) (κ : outParam Type) extends Device σ κ where
  kemWrite : σ → BitVec 8 → BitVec 32 → κ → σ
  kemRead : σ → BitVec 8 → κ → BitVec 32

namespace MlkemDecapsHw

def REG_CONTROL : BitVec 8 := 0x04
def REG_STATUS : BitVec 8 := 0x08
def REG_SLOT : BitVec 8 := 0x0c
def REG_SESSION : BitVec 8 := 0x10
def REG_MEM_REGION : BitVec 8 := 0x20
def REG_MEM_ADDR : BitVec 8 := 0x24
def REG_MEM_DATA : BitVec 8 := 0x28

def REGION_SK : BitVec 32 := 0
def REGION_CT : BitVec 32 := 1

def MLKEM512_SECRET_KEY_BYTES : ℕ := 1632
def MLKEM512_CIPHERTEXT_BYTES : ℕ := 768
def MLKEM_HW_MAX_SESSIONS : ℕ := 64

def MLKEM_HW_OK : ℤ := 0
def MLKEM_HW_TIMEOUT : ℤ := -1
def MLKEM_HW_ARGUMENT : ℤ := -2
def MLKEM_HW_REJECTED : ℤ := -3

section Driver

variable {σ κ : Type} [KemDevice σ κ] (time : ℕ → Access κ)

/-- `wr` -/
def wr (b : BusOf σ) (offset : BitVec 8) (value : BitVec 32) : BusOf σ :=
  ⟨KemDevice.kemWrite (b.waited time) offset value (time b.accesses).edge, b.accesses + 1⟩

/-- `rd` -/
def rd (b : BusOf σ) (offset : BitVec 8) : BusOf σ × BitVec 32 :=
  let k := (time b.accesses).edge
  (⟨Device.tick (b.waited time) k, b.accesses + 1⟩, KemDevice.kemRead (b.waited time) offset k)

/-- The words of the `n` bytes from `p` on; `n` is a multiple of four. -/
def load (b : BusOf σ) (region : BitVec 32) (p : Bytes) (n : ℕ) : BusOf σ :=
  let b := wr time (wr time b REG_MEM_REGION region) REG_MEM_ADDR 0
  (List.range (n / 4)).foldl (fun b i => wr time b REG_MEM_DATA (load32Le (p.drop (4 * i)))) b

def loadSecretKey (b : BusOf σ) (sk : Bytes) : BusOf σ := load time b REGION_SK sk MLKEM512_SECRET_KEY_BYTES

/-- `mlkem_decaps_hw_start` behind its check of the slot. -/
def start (b : BusOf σ) (ct : Bytes) (slot : ℕ) (sessionId : BitVec 32) : BusOf σ :=
  let b := load time b REGION_CT ct MLKEM512_CIPHERTEXT_BYTES
  let b := wr time b REG_SLOT (BitVec.ofNat 32 slot)
  let b := wr time b REG_SESSION sessionId
  let b := wr time b REG_CONTROL (1#32 <<< 8)
  wr time b REG_CONTROL 1

/-- `mlkem_decaps_hw_wait` -/
def wait : ℕ → BusOf σ → BusOf σ × ℤ
  | 0, b => (b, MLKEM_HW_TIMEOUT)
  | limit + 1, b =>
    let (b, s) := rd time b REG_STATUS
    if s &&& 1#32 <<< 2 ≠ 0 then (b, if s &&& 1#32 <<< 3 ≠ 0 then MLKEM_HW_REJECTED else MLKEM_HW_OK)
    else wait limit b

end Driver

end MlkemDecapsHw

namespace SecureChannelHw

open MlkemDecapsHw

variable {σ κ : Type} [KemDevice σ κ] (time : ℕ → Access κ)

def establishSession (limit : ℕ) (ct : Bytes) (b : BusOf σ) (slot : ℕ) (sessionId : BitVec 32) : BusOf σ × ℤ :=
  if MLKEM_HW_MAX_SESSIONS ≤ slot then (b, MLKEM_HW_ARGUMENT)
  else wait time limit (start time b ct slot sessionId)

/-- The channel of the demo, with its fixed ciphertext. -/
def channel (limit : ℕ) (ct : Bytes) : UartDemo.Channel (BusOf σ) where
  establish := establishSession time limit ct
  decrypt b slot counter length ciphertext tag := AeadHw.decrypt time limit b slot counter length ciphertext tag
  encrypt b slot message length := AeadHw.encrypt time limit b slot message length

end SecureChannelHw

namespace UartDemo

variable {σ κ : Type} [KemDevice σ κ] (time : ℕ → Access κ)

/-- `uart_secure_demo_run` before its loop, with its fixed secret key. -/
def start (b : BusOf σ) (sk : Bytes) : State (BusOf σ) :=
  ⟨MlkemDecapsHw.loadSecretKey time b sk, fun _ => false, fun _ => 0, fun _ => 0, false⟩

/-- The state of the loop behind the lines received. -/
def run {σ : Type} (D : Channel σ) (s : State σ) (lines : List (Ascii.Text × Times)) : State σ :=
  lines.foldl (fun s line => if s.stopped then s else (command D s line.1 line.2).1) s

end UartDemo

end ZedSecure
