import Mathlib.Tactic.Common
import Uscan.Lib.Res

/-!
# The error type of the library

Also what a command that meets an error prints, and its exit code.
-/

namespace Uscan

/-- `universal_scanner::Error`. The payloads of the two wrapped error types are their texts. -/
inductive Error where
  /-- An input or output error. -/
  | io (msg : String)
  /-- An error of the packet capture library. -/
  | pcap (msg : String)
  /-- A malformed DNS message. -/
  | dns (msg : String)
  /-- A wrong configuration. -/
  | config (msg : String)
  /-- No active interface. -/
  | noInterface
  /-- No free port. -/
  | noFreePort
  deriving DecidableEq, Repr

/-- The message of an error, `Display`. -/
def Error.text : Error → List Char
  | io msg => "io: ".toList ++ msg.toList
  | pcap msg => "pcap: ".toList ++ msg.toList
  | dns msg => "dns: ".toList ++ msg.toList
  | config msg => "config: ".toList ++ msg.toList
  | noInterface => "no active interface with an IPv4 address".toList
  | noFreePort => "no free UDP port available".toList

/-- What a command leaves behind. -/
structure CommandOutcome where
  /-- The text on standard output. -/
  stdout : List Char
  /-- The text on standard error. -/
  stderr : List Char
  /-- The exit code. -/
  code : ℕ
  deriving DecidableEq

/-- A command that ends with a message. -/
def CommandOutcome.failed (msg : List Char) : CommandOutcome :=
  ⟨[], "error: ".toList ++ msg ++ ['\n'], 1⟩

/-- The exit code of a command. That of a panic is 101. -/
def exitCode : Res Empty CommandOutcome → ℕ
  | .ok outcome => outcome.code
  | .err e => e.elim
  | .panicked => 101

end Uscan
