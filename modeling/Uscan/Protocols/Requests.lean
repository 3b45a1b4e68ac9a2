import Uscan.Lib.Utf8
import Uscan.Net.Addr

/-!
# Requests with fields of their own

The probes that are filled in with a counter or the time, and those of some engines with a frame
format: Bosch, Hanwha, Vivotek, Sony, NiceVision, Panasonic, GigEVision, and Advantech.
-/

namespace Uscan

namespace Bosch

/-- The time of day in UTC, of which `build_probe` makes the transaction number. -/
structure UtcTime where
  /-- The hour. -/
  hour : UInt32
  /-- The minute. -/
  minute : UInt32
  /-- The second. -/
  second : UInt32
  /-- The milliseconds. -/
  millis : UInt32
  deriving DecidableEq, Repr

/-- `ANSWER_MAGIC`. -/
def answerMagic : UInt32 := 0x9939a427

/-- `REQUEST_MAGIC`. -/
def requestMagic : UInt32 := 0xff0006de

/-- `build_probe`. -/
def buildProbe (now : UtcTime) : List UInt8 :=
  let t := now.hour <<< 24 ||| now.minute <<< 16 ||| now.second <<< 8 ||| now.millis / 10
  toBe32 answerMagic ++ toBe32 t ++ toBe32 requestMagic

end Bosch

namespace Hanwha

/-- `HEADER_SIZE`. -/
def headerSize : ℕ := 0x106

/-- `build_probe`. -/
def buildProbe : List UInt8 := 0x01 :: List.replicate (headerSize - 1) 0

end Hanwha

namespace Vivotek

/-- `MAGIC`. -/
def magic : UInt32 := 0x4A5D8F1C

/-- `build_probe`, with the number of the session. -/
def buildProbe (session : UInt8) : List UInt8 := session :: toBe32 magic

end Vivotek

namespace Sony

/-- `build_probe`: one line between the markers. -/
def buildProbe : List UInt8 := [0x02] ++ utf8 "ENQ:allinfo".toList ++ [0xFF] ++ [0x03]

end Sony

namespace NiceVision

/-- `build_probe`, with the number of the transaction. -/
def buildProbe (tx : UInt16) : List UInt8 :=
  toBe32 0x4E494345 ++ toBe16 tx ++ toBe32 0x01080000 ++ [0, 0]

end NiceVision

namespace Panasonic

/-- `build_probe`: the broadcast addresses of both layers, between constants. -/
def buildProbe : List UInt8 :=
  toBe32 0x00010000 ++ toBe32 0x000D0000 ++ List.replicate 4 0 ++ List.replicate 6 0xFF ++
    (⟨255, 255, 255, 255⟩ : Ipv4Addr).octets ++ toBe32 0x00012011 ++ toBe32 0x1E11231F ++
    toBe32 0x1E191300 ++ toBe32 0x00020000 ++ List.replicate 8 0 ++ toBe32 0x0000FFFF ++ toBe16 0

end Panasonic

namespace GigEVision

/-- The probe of `scan`, with the number of the request, the low byte first. -/
def probe (id : UInt16) : List UInt8 :=
  [0x42, 0x11, 0x00, 0x02, 0x00, 0x00] ++ (toBe16 id).reverse

end GigEVision

namespace Advantech

/-- `build_probe`. -/
def buildProbe : List UInt8 :=
  [0x4d, 0x41, 0x44, 0x41, 0x00, 0x00, 0x00, 0x83, 0x01, 0x00, 0x50] ++ List.replicate 42 0 ++
    [0x20] ++ List.replicate 6 0

end Advantech

end Uscan
