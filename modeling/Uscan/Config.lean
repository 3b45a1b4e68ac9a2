/-!
# Configuration

`config.rs`: the switches that the model reads, with their defaults.
-/

namespace Uscan

/-- `Config`. -/
structure Config where
  /-- Devices with an IPv4 address are reported. -/
  enableIpv4 : Bool := true
  /-- Devices with an IPv6 address are reported. -/
  enableIpv6 : Bool := false
  /-- An autoconfigured IPv6 address is reported beside others. -/
  forceLinkLocal : Bool := true
  /-- An autoconfigured IPv4 address is reported beside others. -/
  forceZeroconf : Bool := false
  /-- The table has a row for each protocol and address, not for each address. -/
  forceGenericProtocols : Bool := false
  /-- A port that is in use is shared. -/
  portSharing : Bool := true
  /-- WSDiscovery sends a probe with a fixed identifier. -/
  onvifVerbatim : Bool := false
  /-- Dahua2 also probes the hosts of a subnet one by one. -/
  dahuaNetScan : Bool := false
  /-- The ARP engine is enabled. -/
  arpEnabled : Bool := false
  deriving DecidableEq, Repr

end Uscan
