import Kernix.Lib.ByteMemory
import Kernix.Machine
import Mathlib.Data.List.FinRange
import Mathlib.Logic.Function.Basic

/-! The protocols of `shell/commands/network.c`. A packet is a buffer whose addresses
start at zero. What the terminal shows is left out. -/

namespace Kernix
open ByteMemory

abbrev Mac := Fin 6 → UInt8

/-- `arp_entry_t`. -/
structure ArpEntry where
  ip : Nat
  mac : Mac
  valid : Bool

/-- The number of entries of the ARP table. -/
abbrev arpTableSize : Nat := 16

/-- `network_config_t`, without the addresses that no handler reads. -/
structure NetworkConfig where
  mac : Mac
  ip : Nat
  arpTable : Fin arpTableSize → ArpEntry

/-- `sizeof(ethernet_header_t)`. -/
abbrev ethernetHeaderSize : Nat := 14

/-- `sizeof(arp_header_t)`. -/
abbrev arpHeaderSize : Nat := 28

section Ethernet

/-- Where the fields of `ethernet_header_t` are. -/
abbrev ethSrcMac : Nat := 6
abbrev ethType : Nat := 12

end Ethernet

section Arp

/-- Where the fields of `arp_header_t` are, behind the Ethernet header. -/
abbrev arpOper : Nat := ethernetHeaderSize + 6
abbrev arpSha : Nat := ethernetHeaderSize + 8
abbrev arpSpa : Nat := ethernetHeaderSize + 14
abbrev arpTha : Nat := ethernetHeaderSize + 18
abbrev arpTpa : Nat := ethernetHeaderSize + 24

end Arp

section Ipv4

/-- Where the fields of `ipv4_header_t` are, behind the Ethernet header. -/
abbrev ipVersionIhl : Nat := ethernetHeaderSize
abbrev ipProtocol : Nat := ethernetHeaderSize + 9
abbrev ipChecksum : Nat := ethernetHeaderSize + 10
abbrev ipSrc : Nat := ethernetHeaderSize + 12
abbrev ipDest : Nat := ethernetHeaderSize + 16

end Ipv4

/-- The six bytes of a MAC address. -/
def macAt (packet : Memory) (address : Nat) : Mac := fun i => packet (address + i.val)

/-- The loop that copies a MAC address. -/
def putMac (packet : Memory) (address : Nat) (mac : Mac) : Memory :=
  copy packet address 6 fun i => if inside : i < 6 then mac ⟨i, inside⟩ else 0

/-- The words of `network_checksum`, and the byte behind them when the length is odd. -/
def wordSum (memory : Memory) (address : Nat) : Nat → Nat
  | 0 => 0
  | 1 => (memory address).toNat
  | len + 2 => load memory address 2 + wordSum memory (address + 2) len

/-- The loop that adds the carries. -/
def foldCarries (sum : Nat) : Nat :=
  if sum / 2 ^ 16 = 0 then sum else foldCarries (sum % 2 ^ 16 + sum / 2 ^ 16)
  termination_by sum
  decreasing_by omega

/-- With a length below zero the loop does nothing, and the test behind it reads one byte. -/
def networkChecksum (memory : Memory) (address : Nat) (len : Int) : Nat :=
  let sum := if len < 0 then (memory address).toNat else u32 (wordSum memory address len.toNat)
  2 ^ 16 - 1 - foldCarries sum % 2 ^ 16

/-- The loop of `checksum` of `shell/commands/system.c` and the byte behind it. -/
def checksumWords (memory : Memory) (address sum : Nat) : Nat → Nat
  | 0 => sum
  | 1 => u32 (sum + (memory address).toNat)
  | len + 2 => checksumWords memory (address + 2) (u32 (sum + load memory address 2)) len

/-- `checksum` of `shell/commands/system.c`. -/
def checksum (memory : Memory) (address len : Nat) : Nat :=
  2 ^ 16 - 1 - foldCarries (checksumWords memory address 0 len) % 2 ^ 16

/-- `part << shift` as a `u32`. A shift by a number below zero is undefined. -/
def shiftedPart (part : Nat) (shift : Int) : Except Stop Nat :=
  if 0 ≤ shift then .ok (u32 (part * 2 ^ shift.toNat)) else .error .undefined

/-- The loop of `parse_ip` of `shell/commands/system.c` and what follows it. The number that is
read is an `int`, which nothing keeps from growing past its end. -/
def parseIpFrom (ip part : Nat) (shift : Int) : List UInt8 → Except Stop Nat
  | [] => do
    let last ← shiftedPart part shift
    return ip ||| last
  | char :: rest => do
    if shift < 0 then
      let last ← shiftedPart part shift
      return ip ||| last
    if 0x30 ≤ char ∧ char ≤ 0x39 then
      let part := part * 10 + (char.toNat - 0x30)
      if part < 2 ^ 31 then parseIpFrom ip part shift rest else .error .undefined
    else if char = 0x2E then
      let next ← shiftedPart part shift
      parseIpFrom (ip ||| next) 0 (shift - 8) rest
    else return 0

/-- `parse_ip` of `shell/commands/system.c`. -/
def parseIp (str : List UInt8) : Except Stop Nat := parseIpFrom 0 0 24 str

/-- A call of `network_checksum` or `network_send_packet`: where its bytes start, and its
length. -/
structure LengthCall where
  address : Nat
  len : Int

/-- What `network_handle_packet` leaves: the table, the calls that were made with a
length, and the frames that `e1000_send_packet` was called with. -/
structure PacketEffects where
  config : NetworkConfig
  calls : List LengthCall
  sent : List (List UInt8)

/-- The frame that `network_send_packet` puts together. -/
def networkSendPacket (config : NetworkConfig) (memory : Memory) (address : Nat) (len : Int) (destMac : Mac)
    (ethertype : Nat) : List UInt8 :=
  let header := List.ofFn destMac ++ List.ofFn config.mac ++ [UInt8.ofNat ethertype, UInt8.ofNat (ethertype / 256)]
  let data := (List.range len.toNat).map fun i => memory (address + i)
  (header ++ data).take (len + ethernetHeaderSize).toNat

/-- The answer to an ARP request, which is written over it. -/
def arpAnswer (config : NetworkConfig) (packet : Memory) : Memory :=
  let packet := store packet arpOper 2 0x0200
  let packet := putMac packet arpTha (macAt packet arpSha)
  let packet := store packet arpTpa 4 (load packet arpSpa 4)
  let packet := putMac packet arpSha config.mac
  store packet arpSpa 4 config.ip

/-- The loop over the table that an ARP reply starts. -/
def arpRecord (table : Fin arpTableSize → ArpEntry) (spa : Nat) (sha : Mac) :
    List (Fin arpTableSize) → Fin arpTableSize → ArpEntry
  | [] => table
  | i :: rest =>
    if !(table i).valid || (table i).ip = spa then Function.update table i ⟨spa, sha, true⟩
    else arpRecord table spa sha rest

def handleArp (config : NetworkConfig) (packet : Memory) : PacketEffects :=
  let oper := load packet arpOper 2
  if oper = 0x0100 then
    if load packet arpTpa 4 = config.ip then
      let answer := arpAnswer config packet
      { config
        calls := [⟨ethernetHeaderSize, arpHeaderSize⟩]
        sent := [networkSendPacket config answer ethernetHeaderSize arpHeaderSize (macAt answer ethSrcMac) 0x0806] }
    else ⟨config, [], []⟩
  else if oper = 0x0200 then
    let arpTable := arpRecord config.arpTable (load packet arpSpa 4) (macAt packet arpSha) (List.finRange arpTableSize)
    ⟨{ config with arpTable }, [], []⟩
  else ⟨config, [], []⟩

/-- The length of the IPv4 header. -/
def headerLength (packet : Memory) : Nat := (load packet ipVersionIhl 1 &&& 0xF) * 4

/-- The answer to an ICMP echo request at `icmp`, which is written over it, and the
lengths that its two checksums are made of. -/
def echoAnswer (packet : Memory) (icmp : Nat) (len : Int) : Memory × List LengthCall :=
  let packet := store packet icmp 1 0
  let packet := store packet (icmp + 2) 2 0
  let icmpLen := len - ethernetHeaderSize - headerLength packet
  let packet := store packet (icmp + 2) 2 (networkChecksum packet icmp icmpLen)
  let temp := load packet ipSrc 4
  let packet := store packet ipSrc 4 (load packet ipDest 4)
  let packet := store packet ipDest 4 temp
  let packet := store packet ipChecksum 2 0
  let ipLen := headerLength packet
  let packet := store packet ipChecksum 2 (networkChecksum packet ethernetHeaderSize ipLen)
  (packet, [⟨icmp, icmpLen⟩, ⟨ethernetHeaderSize, ipLen⟩])

def handleIpv4 (config : NetworkConfig) (packet : Memory) (len : Int) : PacketEffects :=
  let dest := load packet ipDest 4
  if (dest = config.ip ∨ dest = 0xFFFFFFFF) ∧ load packet ipProtocol 1 = 1 then
    let icmp := ethernetHeaderSize + headerLength packet
    if load packet icmp 1 = 8 then
      let (answer, calls) := echoAnswer packet icmp len
      { config
        calls := calls ++ [⟨ethernetHeaderSize, len - ethernetHeaderSize⟩]
        sent := [networkSendPacket config answer ethernetHeaderSize (len - ethernetHeaderSize)
          (macAt answer ethSrcMac) 0x0800] }
    else ⟨config, [], []⟩
  else ⟨config, [], []⟩

def networkHandlePacket (config : NetworkConfig) (packet : Memory) (len : Int) : PacketEffects :=
  let ethertype := load packet ethType 2
  if ethertype = 0x0806 then handleArp config packet
  else if ethertype = 0x0800 then handleIpv4 config packet len
  else ⟨config, [], []⟩

/-- The first entry for an address. -/
def arpLookup (config : NetworkConfig) (ip : Nat) : Option Mac :=
  ((List.finRange arpTableSize).find? fun i => (config.arpTable i).valid && (config.arpTable i).ip = ip).map fun i =>
    (config.arpTable i).mac

section Requests

/-- `"\xff\xff\xff\xff\xff\xff"`. -/
def broadcastMac : Mac := fun _ => 0xFF

/-- `arp_request`: the frame that it sends. The ARP header is written where it stands in it. -/
def arpRequest (config : NetworkConfig) (targetIp : Nat) : List UInt8 :=
  let arp := store (fun _ => 0) ethernetHeaderSize 2 0x0100
  let arp := store arp (ethernetHeaderSize + 2) 2 0x0008
  let arp := store arp (ethernetHeaderSize + 4) 1 6
  let arp := store arp (ethernetHeaderSize + 5) 1 4
  let arp := store arp arpOper 2 0x0100
  let arp := putMac arp arpSha config.mac
  let arp := store arp arpSpa 4 config.ip
  let arp := putMac arp arpTha broadcastMac
  let arp := store arp arpTpa 4 targetIp
  networkSendPacket config arp ethernetHeaderSize arpHeaderSize broadcastMac 0x0806

/-- `sizeof(ipv4_header_t)` and `sizeof(icmp_header_t)`. -/
abbrev ipv4HeaderSize : Nat := 20
abbrev icmpHeaderSize : Nat := 8

/-- Where the ICMP header of a ping stands in its frame. -/
abbrev pingIcmp : Nat := ethernetHeaderSize + ipv4HeaderSize

/-- The length of the data of a ping. -/
abbrev pingLength : Nat := 32

/-- The echo request of `cmd_ping`, with its headers where they stand in the frame. -/
def echoPacket (config : NetworkConfig) (targetIp : Nat) : Memory :=
  let packet := store (fun _ => 0) ipVersionIhl 1 0x45
  let packet := store packet (ethernetHeaderSize + 1) 1 0
  let packet := store packet (ethernetHeaderSize + 2) 2 (ipv4HeaderSize + icmpHeaderSize + pingLength)
  let packet := store packet (ethernetHeaderSize + 4) 2 0x1234
  let packet := store packet (ethernetHeaderSize + 6) 2 0
  let packet := store packet (ethernetHeaderSize + 8) 1 64
  let packet := store packet ipProtocol 1 1
  let packet := store packet ipSrc 4 config.ip
  let packet := store packet ipDest 4 targetIp
  let packet := store packet ipChecksum 2 0
  let packet := store packet ipChecksum 2 (networkChecksum packet ethernetHeaderSize ipv4HeaderSize)
  let packet := store packet pingIcmp 1 8
  let packet := store packet (pingIcmp + 1) 1 0
  let packet := store packet (pingIcmp + 4) 2 0x1234
  let packet := store packet (pingIcmp + 6) 2 0
  let packet := copy packet (pingIcmp + icmpHeaderSize) pingLength UInt8.ofNat
  let packet := store packet (pingIcmp + 2) 2 0
  store packet (pingIcmp + 2) 2 (networkChecksum packet pingIcmp (icmpHeaderSize + pingLength : Nat))

def echoRequest (config : NetworkConfig) (targetIp : Nat) (destMac : Mac) : List UInt8 :=
  networkSendPacket config (echoPacket config targetIp) ethernetHeaderSize
    (ipv4HeaderSize + icmpHeaderSize + pingLength : Nat) destMac 0x0800

/-- `cmd_ping`: the frames that it sends. Nothing comes in while it waits, so that what was not in
the table before is not there afterwards. -/
def cmdPing (config : NetworkConfig) (s : Option (List UInt8)) : Except Stop (List (List UInt8)) := do
  match s with
  | none | some [] => return []
  | some (char :: rest) =>
    let targetIp ← parseIp (char :: rest)
    if targetIp = 0 then return []
    match arpLookup config targetIp with
    | some destMac => return [echoRequest config targetIp destMac]
    | none => return [arpRequest config targetIp, echoRequest config targetIp broadcastMac]

end Requests

end Kernix
