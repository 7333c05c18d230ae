import Tunnel.Net

/-!
# Inspect — Labels

What the traffic monitor calls things: the layer-4 and application protocols with their labels, the
confidence tier of each (`rank`), and the family bits a label adds to what is remembered of a host.
-/

namespace Tunnel.Inspect
open Support

/-- Packet direction relative to the local host. -/
inductive Direction where
  | up
  | down
deriving DecidableEq, Repr

/-! ### Layer 4 -/

inductive L4 where
  | tcp
  | udp
  | icmp
  | other (proto : UInt8)
deriving DecidableEq, Repr

def L4.label : L4 → String
  | tcp => "TCP"
  | udp => "UDP"
  | icmp => "ICMP"
  | other n =>
    if n = 2 then "IGMP"
    else if n = 44 then "Frag"
    else if n = 47 then "GRE"
    else if n = 50 then "ESP"
    else if n = 51 then "AH"
    else if n = 89 then "OSPF"
    else if n = 132 then "SCTP"
    else "IP"

/-! ### Applications -/

inductive AppProto where
  | dns
  | mdns
  | llmnr
  | ssdp
  | netBios
  | http
  | tls
  | quic
  | wireGuard
  | openVpn
  | shadowsocks
  | obfuscated
  /-- Obfuscated, to a host that also carries uTP or DHT. -/
  | obfuscatedBt
  | bitTorrent
  | utp
  | dht
  | btTracker
  | ssh
  | ntp
  | dhcp
  | dhcpv6
  | igmp
  | icmp
  | other
deriving DecidableEq, Repr

namespace AppProto

def label : AppProto → String
  | dns => "DNS"
  | mdns => "mDNS"
  | llmnr => "LLMNR"
  | ssdp => "SSDP"
  | netBios => "NetBIOS"
  | http => "HTTP"
  | tls => "TLS"
  | quic => "QUIC"
  | wireGuard => "WireGuard"
  | openVpn => "OpenVPN"
  | shadowsocks => "Shadowsocks"
  | obfuscated => "Obfuscated"
  | obfuscatedBt => "Obfuscated (uTP/DHT)"
  | bitTorrent => "BitTorrent"
  | utp => "uTP"
  | dht => "DHT"
  | btTracker => "BT Tracker"
  | ssh => "SSH"
  | ntp => "NTP"
  | dhcp => "DHCP"
  | dhcpv6 => "DHCPv6"
  | igmp => "IGMP"
  | icmp => "ICMP"
  | other => "Other"

/-- Classification confidence tier: nothing, a shape, a port, a signature. -/
def rank : AppProto → ℕ
  | other => 0
  | obfuscated | obfuscatedBt => 1
  | dns | mdns | llmnr | ssdp | netBios | http | ssh | ntp | dhcp | dhcpv6 | openVpn
  | shadowsocks | igmp | icmp => 2
  | tls | quic | wireGuard | bitTorrent | utp | dht | btTracker => 3

end AppProto

/-! ### Families -/

namespace Family

def BT_PEER : UInt16 := (1 : UInt16) <<< 0
def UTP : UInt16 := (1 : UInt16) <<< 1
def DHT : UInt16 := (1 : UInt16) <<< 2
def BT_TRACKER : UInt16 := (1 : UInt16) <<< 3
def TLS : UInt16 := (1 : UInt16) <<< 4
def QUIC : UInt16 := (1 : UInt16) <<< 5
def DNS : UInt16 := (1 : UInt16) <<< 6
def HTTP : UInt16 := (1 : UInt16) <<< 7
def SSH : UInt16 := (1 : UInt16) <<< 8
def VPN : UInt16 := (1 : UInt16) <<< 9
def OBFUSCATED : UInt16 := (1 : UInt16) <<< 10
def LAN : UInt16 := (1 : UInt16) <<< 11
def OTHER : UInt16 := (1 : UInt16) <<< 15

/-- A host with either of these is a BitTorrent client. -/
def TORRENTING : UInt16 := UTP ||| DHT

end Family

open Family in
/-- The family bits this label contributes to a host's memory. -/
def AppProto.family : AppProto → UInt16
  | bitTorrent => BT_PEER
  | utp => UTP
  | dht => DHT
  | btTracker => BT_TRACKER
  | tls => TLS
  | quic => QUIC
  | dns => DNS
  | http => HTTP
  | ssh => SSH
  | wireGuard | openVpn | shadowsocks => VPN
  | obfuscated => OBFUSCATED
  | obfuscatedBt => OBFUSCATED ||| BT_PEER
  | mdns | llmnr | ssdp | netBios | dhcp | dhcpv6 | igmp => LAN
  | ntp | icmp | other => OTHER

/-! ### Status and origin -/

/-- Engine lifecycle status of a flow, set by the connection manager. -/
inductive FlowStatus where
  | active
  | shed
  | reaped
deriving DecidableEq, Repr

def FlowStatus.label : FlowStatus → String
  | active => ""
  | shed => "shed"
  | reaped => "reaped"

/-- Who opened a flow: the host, or this process's own lookups. -/
inductive Origin where
  | host
  | intel
deriving DecidableEq, Repr

def Origin.label : Origin → String
  | host => ""
  | intel => "intel"

/-- What an origin-ASN lookup says about an address's network. -/
structure AsnInfo where
  asn : UInt32
  announced : String
  org : String
deriving DecidableEq, Repr

end Tunnel.Inspect
