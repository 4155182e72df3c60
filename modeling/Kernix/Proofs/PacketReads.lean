import Kernix.Net.Network

/-! What `network_handle_packet` does with a packet, by the bytes that decide it. -/

namespace Kernix.Proofs
open ByteMemory

variable {config : NetworkConfig} {packet first second : Memory} {address count len : Nat}

section Loads

theorem load_byte (memory : Memory) (address : Nat) : load memory address 1 = (memory address).toNat := by
  simp only [load, Nat.mul_zero, Nat.add_zero]

theorem load_byte_iff (byte : UInt8) : load packet address 1 = byte.toNat ↔ packet address = byte := by
  rw [load_byte, UInt8.toNat_inj]

theorem load_word_iff (low high : UInt8) :
    load packet address 2 = low.toNat + 256 * high.toNat ↔ packet address = low ∧ packet (address + 1) = high := by
  have left := low.toNat_lt
  have left' := (packet address).toNat_lt
  simp only [load, Nat.mul_zero, Nat.add_zero, ← UInt8.toNat_inj]
  constructor
  · intro same
    constructor <;> omega
  · rintro ⟨same, same'⟩
    rw [same, same']

theorem macAt_agree (same : Agree first second address 6) : macAt first address = macAt second address := by
  funext i
  exact same _ (by omega) (by omega)

theorem agree_store (same : Agree first second address count) (start width value : Nat) :
    Agree (ByteMemory.store first start width value) (ByteMemory.store second start width value) address count := by
  intro position low high
  unfold ByteMemory.store
  split
  · rfl
  · exact same position low high

theorem agree_putMac (same : Agree first second address count) (start : Nat) (mac : Mac) :
    Agree (putMac first start mac) (putMac second start mac) address count := by
  intro position low high
  unfold Kernix.putMac copy
  split
  · rfl
  · exact same position low high

theorem wordSum_agree (same : Agree first second address count) :
    wordSum first address count = wordSum second address count := by
  induction address, count using wordSum.induct with
  | case1 => rfl
  | case2 address =>
    rw [wordSum, wordSum, same address (by omega) (by omega)]
  | case3 address count ih =>
    rw [wordSum, wordSum, load_agree (same.mono (Nat.le_refl _) (by omega)), ih (same.mono (by omega) (by omega))]

theorem networkChecksum_agree (same : Agree first second address count) :
    networkChecksum first address count = networkChecksum second address count := by
  unfold networkChecksum
  rw [if_neg (by omega), if_neg (by omega), Int.toNat_natCast, wordSum_agree same]

theorem networkSendPacket_agree (same : Agree first second address count) (destMac : Mac) (ethertype : Nat) :
    networkSendPacket config first address count destMac ethertype =
      networkSendPacket config second address count destMac ethertype := by
  unfold networkSendPacket
  have data : ((List.range count).map fun i => first (address + i)) =
    (List.range count).map fun i => second (address + i) := by
    apply List.map_congr_left
    intro i member
    exact same _ (by omega) (by have := List.mem_range.mp member; omega)
  rw [Int.toNat_natCast, data]

end Loads

section Arp

theorem handlePacket_arp (low : packet 12 = 6) (high : packet 13 = 8) (len : Int) :
    networkHandlePacket config packet len = handleArp config packet := by
  have type : load packet ethType 2 = 0x0806 := (load_word_iff 6 8).mpr ⟨low, high⟩
  unfold networkHandlePacket
  rw [type]
  rfl

theorem handlePacket_ipv4 (low : packet 12 = 0) (high : packet 13 = 8) (len : Int) :
    networkHandlePacket config packet len = handleIpv4 config packet len := by
  have type : load packet ethType 2 = 0x0800 := (load_word_iff 0 8).mpr ⟨low, high⟩
  unfold networkHandlePacket
  rw [type]
  rfl

theorem handlePacket_other (arp : ¬(packet 12 = 6 ∧ packet 13 = 8)) (ipv4 : ¬(packet 12 = 0 ∧ packet 13 = 8))
    (len : Int) :
    networkHandlePacket config packet len = ⟨config, [], []⟩ := by
  have noArp : load packet ethType 2 ≠ 0x0806 := mt (load_word_iff 6 8).mp arp
  have noIpv4 : load packet ethType 2 ≠ 0x0800 := mt (load_word_iff 0 8).mp ipv4
  unfold networkHandlePacket
  dsimp only
  rw [if_neg noArp, if_neg noIpv4]

theorem handleArp_other (request : ¬(packet 20 = 0 ∧ packet 21 = 1)) (reply : ¬(packet 20 = 0 ∧ packet 21 = 2)) :
    handleArp config packet = ⟨config, [], []⟩ := by
  have noRequest : load packet arpOper 2 ≠ 0x0100 := mt (load_word_iff 0 1).mp request
  have noReply : load packet arpOper 2 ≠ 0x0200 := mt (load_word_iff 0 2).mp reply
  unfold handleArp
  dsimp only
  rw [if_neg noRequest, if_neg noReply]

theorem handleArp_reply (low : packet 20 = 0) (high : packet 21 = 2) :
    handleArp config packet = ⟨⟨config.mac, config.ip, arpRecord config.arpTable (load packet arpSpa 4)
      (macAt packet arpSha) (List.finRange arpTableSize)⟩, [], []⟩ := by
  have reply : load packet arpOper 2 = 0x0200 := (load_word_iff 0 2).mpr ⟨low, high⟩
  unfold handleArp
  rw [reply]
  rfl

theorem handleArp_request (low : packet 20 = 0) (high : packet 21 = 1) :
    handleArp config packet = if load packet arpTpa 4 = config.ip then
      ⟨config, [⟨ethernetHeaderSize, arpHeaderSize⟩], [networkSendPacket config (arpAnswer config packet)
        ethernetHeaderSize arpHeaderSize (macAt (arpAnswer config packet) ethSrcMac) 0x0806]⟩
    else ⟨config, [], []⟩ := by
  have request : load packet arpOper 2 = 0x0100 := (load_word_iff 0 1).mpr ⟨low, high⟩
  unfold handleArp
  rw [request]
  rfl

theorem arpAnswer_agree (same : Agree first second 0 count) (whole : 42 ≤ count) :
    Agree (arpAnswer config first) (arpAnswer config second) 0 count := by
  have spa {left right : Memory} (agree : Agree left right 0 count) : load left arpSpa 4 = load right arpSpa 4 :=
    load_agree (agree.mono (by omega) (by unfold arpSpa ethernetHeaderSize; omega))
  have sha {left right : Memory} (agree : Agree left right 0 count) : macAt left arpSha = macAt right arpSha :=
    macAt_agree (agree.mono (by omega) (by unfold arpSha ethernetHeaderSize; omega))
  have named := agree_store same arpOper 2 0x0200
  have target := agree_putMac named arpTha (macAt (store second arpOper 2 0x0200) arpSha)
  have turned := agree_store target arpTpa 4
    (load (putMac (store second arpOper 2 0x0200) arpTha (macAt (store second arpOper 2 0x0200) arpSha)) arpSpa 4)
  unfold arpAnswer
  dsimp only
  rw [sha named, spa target]
  exact agree_store (agree_putMac turned arpSha config.mac) arpSpa 4 config.ip

end Arp

section Echo

/-- The byte that tells the kind of an ICMP message. -/
def icmpType (packet : Memory) : UInt8 := packet (ethernetHeaderSize + headerLength packet)

theorem handleIpv4_other (other : packet 23 ≠ 1 ∨ icmpType packet ≠ 8) (len : Int) :
    handleIpv4 config packet len = ⟨config, [], []⟩ := by
  unfold handleIpv4
  dsimp only
  rcases other with protocol | type
  · have wrong : load packet ipProtocol 1 ≠ 1 := mt (load_byte_iff 1).mp protocol
    rw [if_neg fun both => wrong both.2]
  · have wrong : load packet (ethernetHeaderSize + headerLength packet) 1 ≠ 8 := mt (load_byte_iff 8).mp type
    rw [if_neg wrong, ite_self]

theorem handleIpv4_stranger (other : load packet ipDest 4 ≠ config.ip) (single : load packet ipDest 4 ≠ 0xFFFFFFFF)
    (len : Int) :
    handleIpv4 config packet len = ⟨config, [], []⟩ := by
  unfold handleIpv4
  dsimp only
  rw [if_neg fun both => both.1.elim other single]

theorem handleIpv4_echo (protocol : packet 23 = 1) (type : icmpType packet = 8) (len : Int) :
    handleIpv4 config packet len = if load packet ipDest 4 = config.ip ∨ load packet ipDest 4 = 0xFFFFFFFF then
      ⟨config, (echoAnswer packet (ethernetHeaderSize + headerLength packet) len).2 ++
          [⟨ethernetHeaderSize, len - ethernetHeaderSize⟩],
        [networkSendPacket config (echoAnswer packet (ethernetHeaderSize + headerLength packet) len).1 ethernetHeaderSize
          (len - ethernetHeaderSize)
          (macAt (echoAnswer packet (ethernetHeaderSize + headerLength packet) len).1 ethSrcMac) 0x0800]⟩
    else ⟨config, [], []⟩ := by
  have isIcmp : load packet ipProtocol 1 = 1 := (load_byte_iff 1).mpr protocol
  have isEcho : load packet (ethernetHeaderSize + headerLength packet) 1 = 8 := (load_byte_iff 8).mpr type
  unfold handleIpv4
  dsimp only
  rw [isIcmp, isEcho]
  simp

theorem headerLength_eq (packet : Memory) : headerLength packet = ((packet 14).toNat &&& 15) * 4 := by
  rw [headerLength, load_byte]

theorem headerLength_agree (same : first 14 = second 14) : headerLength first = headerLength second := by
  rw [headerLength_eq, headerLength_eq, same]

/-- An echo request does not lie over the first byte of its IPv4 header. -/
theorem echo_behind (type : icmpType packet = 8) : 4 ≤ headerLength packet := by
  by_contra short
  have none : (packet 14).toNat &&& 15 = 0 := by
    rw [headerLength_eq] at short
    omega
  have zero : headerLength packet = 0 := by rw [headerLength_eq, none]
  rw [icmpType, zero] at type
  have same : packet 14 = 8 := type
  rw [same] at none
  exact absurd none (by decide)

theorem headerLength_store (memory : Memory) {start : Nat} (behind : 15 ≤ start) (width value : Nat) :
    headerLength (store memory start width value) = headerLength memory := by
  have same : Agree (store memory start width value) memory 14 1 := store_agree memory (.inl behind)
  exact headerLength_agree (same 14 (Nat.le_refl _) (by omega))

variable {icmp : Nat}

theorem echoAnswer_calls (behind : 18 ≤ icmp) (len : Int) : (echoAnswer packet icmp len).2 =
    [⟨icmp, len - ethernetHeaderSize - headerLength packet⟩, ⟨ethernetHeaderSize, headerLength packet⟩] := by
  unfold echoAnswer
  dsimp only
  rw [headerLength_store _ (by omega), headerLength_store _ (by omega), headerLength_store _ (by decide),
    headerLength_store _ (by decide), headerLength_store _ (by decide), headerLength_store _ (by omega),
    headerLength_store _ (by omega), headerLength_store _ (by omega)]

/-- The answer to a request is made of the bytes of the frame alone. -/
theorem echoAnswer_agree (same : Agree first second 0 len) (whole : 34 ≤ len) (behind : 18 ≤ icmp)
    (inside : ethernetHeaderSize + headerLength second ≤ len) (place : icmp = ethernetHeaderSize + headerLength second) :
    Agree (echoAnswer first icmp len).1 (echoAnswer second icmp len).1 0 len := by
  have length {left right : Memory} (agree : Agree left right 0 len) : headerLength left = headerLength right :=
    headerLength_agree (agree 14 (by omega) (by omega))
  have word {left right : Memory} (agree : Agree left right 0 len) {start : Nat} (early : start ≤ 30) :
      load left start 4 = load right start 4 := load_agree (agree.mono (by omega) (by omega))
  have checksum {left right : Memory} (agree : Agree left right 0 len) {start count : Nat} (fits : start + count ≤ len) :
      networkChecksum left start count = networkChecksum right start count :=
    networkChecksum_agree (agree.mono (by omega) (by omega))
  have icmpLen : (len : Int) - ethernetHeaderSize - headerLength second =
      ((len - ethernetHeaderSize - headerLength second : Nat) : Int) := by omega
  have cleared := agree_store (agree_store same icmp 1 0) (icmp + 2) 2 0
  unfold echoAnswer
  dsimp only
  rw [length cleared, headerLength_store _ (by omega), headerLength_store _ (by omega), icmpLen,
    checksum cleared (by omega)]
  have summed := agree_store cleared (icmp + 2) 2 (networkChecksum (store (store second icmp 1 0) (icmp + 2) 2 0) icmp
    (len - ethernetHeaderSize - headerLength second : Nat))
  rw [word summed (by decide : ipSrc ≤ 30), word summed (by decide : ipDest ≤ 30)]
  generalize networkChecksum (store (store second icmp 1 0) (icmp + 2) 2 0) icmp
    (len - ethernetHeaderSize - headerLength second : Nat) = sum at summed ⊢
  have turned := agree_store (agree_store (agree_store summed ipSrc 4
    (load (store (store (store second icmp 1 0) (icmp + 2) 2 0) (icmp + 2) 2 sum) ipDest 4)) ipDest 4
    (load (store (store (store second icmp 1 0) (icmp + 2) 2 0) (icmp + 2) 2 sum) ipSrc 4)) ipChecksum 2 0
  rw [length turned, headerLength_store _ (by decide), headerLength_store _ (by decide), headerLength_store _ (by decide),
    headerLength_store _ (by omega), headerLength_store _ (by omega), headerLength_store _ (by omega),
    checksum turned (by omega)]
  exact agree_store turned ipChecksum 2 _

end Echo

end Kernix.Proofs
