import Kernix.Proofs.Checksums
import Kernix.Proofs.LanExchanges

/-! Echo requests of machines with this kernel. The reply of one comes back with what was
sent, and its two checksums are right. -/

namespace Kernix.Proofs
open ByteMemory

section Answers
variable {packet : Memory} {icmp len : Nat}

/-- The message of the answer, with its checksum. -/
def summedMessage (packet : Memory) (icmp len : Nat) : Memory :=
  let cleared := store (store packet icmp 1 0) (icmp + 2) 2 0
  store cleared (icmp + 2) 2 (networkChecksum cleared icmp (len - icmp : Nat))

/-- The addresses of the answer. -/
def turnedHeader (packet : Memory) : Memory :=
  store (store packet ipSrc 4 (load packet ipDest 4)) ipDest 4 (load packet ipSrc 4)

/-- The header of the answer, with its checksum. -/
def summedHeader (packet : Memory) (len : Nat) : Memory :=
  let cleared := store packet ipChecksum 2 0
  store cleared ipChecksum 2 (networkChecksum cleared ethernetHeaderSize len)

theorem echoAnswer_eq (place : icmp = ethernetHeaderSize + headerLength packet) (behind : 34 ≤ icmp)
    (inside : icmp ≤ len) :
    (echoAnswer packet icmp len).1 =
      summedHeader (turnedHeader (summedMessage packet icmp len)) (icmp - ethernetHeaderSize) := by
  have messageLen : (len : Int) - ethernetHeaderSize - headerLength packet = (len - icmp : Nat) := by omega
  have headerLen : headerLength packet = icmp - ethernetHeaderSize := by omega
  unfold echoAnswer summedHeader turnedHeader summedMessage
  dsimp only
  rw [headerLength_store _ (by omega), headerLength_store _ (by omega), headerLength_store _ (by decide),
    headerLength_store _ (by decide), headerLength_store _ (by decide), headerLength_store _ (by omega),
    headerLength_store _ (by omega), headerLength_store _ (by omega), messageLen, headerLen]

/-- A sum that is stored among the words it is made of, where there was a zero. -/
theorem checksum_cleared (memory : Memory) (address offset : Nat) (inside : 2 * offset + 2 ≤ len) :
    networkChecksum (store (store memory (address + 2 * offset) 2 0) (address + 2 * offset) 2
      (networkChecksum (store memory (address + 2 * offset) 2 0) address len)) address len = 0 :=
  networkChecksum_stored offset inside (load_store_fits memory (by decide))

theorem summedMessage_sum (packet : Memory) (inside : icmp + 4 ≤ len) :
    networkChecksum (summedMessage packet icmp len) icmp (len - icmp : Nat) = 0 :=
  checksum_cleared (store packet icmp 1 0) icmp 1 (by omega)

theorem summedMessage_agree (packet : Memory) {start count : Nat} (apart : start + count ≤ icmp ∨ icmp + 4 ≤ start) :
    Agree (summedMessage packet icmp len) packet start count := by
  have first : Agree (store packet icmp 1 0) packet start count := store_agree packet (by omega)
  have second : Agree (store (store packet icmp 1 0) (icmp + 2) 2 0) (store packet icmp 1 0) start count :=
    store_agree _ (by omega)
  exact (store_agree _ (by omega)).trans (second.trans first)

theorem summedMessage_kind (packet : Memory) (icmp len : Nat) : summedMessage packet icmp len icmp = 0 := by
  have cleared : Agree (summedMessage packet icmp len) (store packet icmp 1 0) icmp 1 :=
    (store_agree _ (.inl (by omega))).trans (store_agree _ (.inl (by omega)))
  have kind : load (summedMessage packet icmp len) icmp 1 = 0 :=
    (load_agree cleared).trans (load_store_fits _ (by decide))
  exact (load_byte_iff 0).mp kind

theorem turnedHeader_src (packet : Memory) : load (turnedHeader packet) ipSrc 4 = load packet ipDest 4 := by
  unfold turnedHeader
  rw [load_store_apart _ (.inl (by decide))]
  exact load_store_fits _ (load_lt ..)

theorem turnedHeader_dest (packet : Memory) : load (turnedHeader packet) ipDest 4 = load packet ipSrc 4 :=
  load_store_fits _ (load_lt ..)

theorem turnedHeader_agree (packet : Memory) {start count : Nat} (apart : start + count ≤ ipSrc ∨ ipDest + 4 ≤ start) :
    Agree (turnedHeader packet) packet start count := by
  have first : Agree (store packet ipSrc 4 (load packet ipDest 4)) packet start count :=
    store_agree packet (by unfold ipSrc ipDest at *; omega)
  exact (store_agree _ (by unfold ipSrc ipDest at *; omega)).trans first

theorem summedHeader_sum (packet : Memory) (inside : 12 ≤ len) :
    networkChecksum (summedHeader packet len) ethernetHeaderSize len = 0 :=
  checksum_cleared packet ethernetHeaderSize 5 inside

theorem summedHeader_agree (packet : Memory) {start count : Nat}
    (apart : start + count ≤ ipChecksum ∨ ipChecksum + 2 ≤ start) : Agree (summedHeader packet len) packet start count :=
  (store_agree _ apart).trans (store_agree packet apart)

/-- The answer to an echo request, whose message starts at `icmp`. -/
structure EchoReplied (packet answer : Memory) (icmp len : Nat) : Prop where
  header : networkChecksum answer ethernetHeaderSize (icmp - ethernetHeaderSize : Nat) = 0
  message : networkChecksum answer icmp (len - icmp : Nat) = 0
  src : load answer ipSrc 4 = load packet ipDest 4
  dest : load answer ipDest 4 = load packet ipSrc 4
  kind : answer icmp = 0
  front : Agree answer packet 0 ipChecksum
  options : Agree answer packet (ipDest + 4) (icmp - (ipDest + 4))
  data : ∀ count, Agree answer packet (icmp + 4) count

theorem echoAnswer_replied (place : icmp = ethernetHeaderSize + headerLength packet) (behind : 34 ≤ icmp)
    (inside : icmp + 4 ≤ len) : EchoReplied packet (echoAnswer packet icmp len).1 icmp len := by
  rw [echoAnswer_eq place behind (by omega)]
  generalize size : icmp - ethernetHeaderSize = headerLen
  have fits : 12 ≤ headerLen := by
    unfold ethernetHeaderSize at size
    omega
  -- what stands behind the header is touched by the message alone, and what stands in it by the other two
  have front (start count : Nat) (inside : start + count ≤ icmp) :
      Agree (summedMessage packet icmp len) packet start count := summedMessage_agree packet (.inl inside)
  have back (start count : Nat) (behind : ipDest + 4 ≤ start) :
      Agree (summedHeader (turnedHeader (summedMessage packet icmp len)) headerLen) (summedMessage packet icmp len)
        start count :=
    (summedHeader_agree _ (.inr (Nat.le_trans (by decide) behind))).trans (turnedHeader_agree _ (.inr behind))
  have addresses (start : Nat) (behind : ipChecksum + 2 ≤ start) :
      load (summedHeader (turnedHeader (summedMessage packet icmp len)) headerLen) start 4 =
        load (turnedHeader (summedMessage packet icmp len)) start 4 :=
    load_agree (summedHeader_agree _ (.inr behind))
  have earlier : ipDest + 4 ≤ icmp := behind
  refine ⟨?_, ?_, ?_, ?_, ?_, ?_, ?_, ?_⟩
  · rw [size]
    exact summedHeader_sum _ fits
  · rw [networkChecksum_agree (back icmp _ earlier)]
    exact summedMessage_sum packet inside
  · rw [addresses ipSrc (by decide), turnedHeader_src, load_agree (front ipDest 4 earlier)]
  · rw [addresses ipDest (by decide), turnedHeader_dest, load_agree (front ipSrc 4 (by unfold ipSrc ethernetHeaderSize; omega))]
  · exact (back icmp 1 earlier icmp (Nat.le_refl _) (by omega)).trans (summedMessage_kind packet icmp len)
  · exact (summedHeader_agree _ (.inl (by decide))).trans ((turnedHeader_agree _ (.inl (by decide))).trans
      (front 0 ipChecksum (Nat.le_trans (by decide) earlier)))
  · exact (back _ _ (Nat.le_refl _)).trans (front _ _ (by omega))
  · exact fun count => (back _ _ (Nat.le_trans earlier (Nat.le_add_right ..))).trans
      (summedMessage_agree packet (.inr (Nat.le_refl _)))

end Answers

section Pings
variable {asker owner : NetworkConfig} {targetIp : Nat} {destMac : Mac}

theorem load_copy_apart (memory : Memory) {address count start length : Nat} {bytes : Nat → UInt8}
    (apart : start + length ≤ address ∨ address + count ≤ start) :
    load (copy memory address count bytes) start length = load memory start length :=
  load_agree ((copy_confined memory address count bytes).agree apart)

/-- What the handler reads of a ping. -/
structure PingReads (asker : NetworkConfig) (targetIp : Nat) (packet : Memory) : Prop where
  version : load packet ipVersionIhl 1 = 0x45
  protocol : load packet ipProtocol 1 = 1
  src : load packet ipSrc 4 = asker.ip % 256 ^ 4
  dest : load packet ipDest 4 = targetIp % 256 ^ 4
  kind : load packet pingIcmp 1 = 8

theorem echoPacket_reads (asker : NetworkConfig) (targetIp : Nat) :
    PingReads asker targetIp (echoPacket asker targetIp) := by
  unfold echoPacket
  dsimp only
  constructor <;>
    simp (disch := decide) only [load_store_apart, load_copy_apart, load_store, Nat.reducePow, Nat.reduceMod]

theorem PingReads.agree {packet second : Memory} (reads : PingReads asker targetIp packet)
    (same : Agree second packet ethernetHeaderSize 21) : PingReads asker targetIp second where
  version := (load_agree (same.mono (by decide) (by decide))).trans reads.version
  protocol := (load_agree (same.mono (by decide) (by decide))).trans reads.protocol
  src := (load_agree (same.mono (by decide) (by decide))).trans reads.src
  dest := (load_agree (same.mono (by decide) (by decide))).trans reads.dest
  kind := (load_agree (same.mono (by decide) (by decide))).trans reads.kind

/-- A ping has the shortest header. -/
theorem PingReads.header {packet : Memory} (reads : PingReads asker targetIp packet) : headerLength packet = 20 := by
  rw [headerLength, reads.version]
  rfl

/-- The machine that a ping is for answers it. -/
theorem PingReads.answered {packet : Memory} (reads : PingReads asker targetIp packet)
    (ours : targetIp % 256 ^ 4 = owner.ip) (type : load packet ethType 2 = 0x0800) (len : Nat) :
    (networkHandlePacket owner packet len).config = owner ∧
      (networkHandlePacket owner packet len).sent = [networkSendPacket owner (echoAnswer packet pingIcmp len).1
        ethernetHeaderSize (len - ethernetHeaderSize) (macAt (echoAnswer packet pingIcmp len).1 ethSrcMac) 0x0800] := by
  obtain ⟨low, high⟩ := (load_word_iff 0 8).mp type
  have protocol := (load_byte_iff 1).mp reads.protocol
  have kind : icmpType packet = 8 := by
    rw [icmpType, reads.header]
    exact (load_byte_iff 8).mp reads.kind
  rw [handlePacket_ipv4 low high, handleIpv4_echo protocol kind, if_pos (.inl (reads.dest.trans ours)), reads.header]
  exact ⟨rfl, rfl⟩

/-- What comes back to the machine that sent a ping. -/
structure PingReplied (asker owner : NetworkConfig) (targetIp : Nat) (packet : Memory) : Prop where
  type : load packet ethType 2 = 0x0800
  mac : macAt packet 0 = asker.mac
  sender : macAt packet ethSrcMac = owner.mac
  src : load packet ipSrc 4 = owner.ip
  dest : load packet ipDest 4 = asker.ip
  header : networkChecksum packet ethernetHeaderSize ipv4HeaderSize = 0
  message : networkChecksum packet pingIcmp (icmpHeaderSize + pingLength : Nat) = 0
  kind : packet pingIcmp = 0
  data : Agree packet (echoPacket asker targetIp) (pingIcmp + 4) (4 + pingLength)
  ignored : ∀ len, networkHandlePacket asker packet len = ⟨asker, [], []⟩

/-- The reply to a ping, when it is received. -/
theorem reply_received {request answer : Memory} (reads : PingReads asker targetIp request) (valid : asker.ip < 2 ^ 32)
    (ours : targetIp % 256 ^ 4 = owner.ip) (body : Agree request (echoPacket asker targetIp) ethernetHeaderSize 60)
    (replied : EchoReplied request answer pingIcmp 74) (behind : Nat → UInt8) :
    PingReplied asker owner targetIp
      (extended (networkSendPacket owner answer ethernetHeaderSize (60 : Nat) asker.mac 0x0800) behind) := by
  have same := networkSendPacket_received owner answer 60 asker.mac 0x0800 behind
  have type : load (extended (networkSendPacket owner answer ethernetHeaderSize (60 : Nat) asker.mac 0x0800) behind)
      ethType 2 = 0x0800 := received_type (by decide) behind
  generalize extended (networkSendPacket owner answer ethernetHeaderSize (60 : Nat) asker.mac 0x0800) behind = packet
    at same type ⊢
  have front : Agree packet (framed owner answer asker.mac 0x0800) ethernetHeaderSize 60 :=
    same.mono (Nat.zero_le _) (Nat.le_refl _)
  have whole : Agree packet answer ethernetHeaderSize 60 := front.trans (framed_data _ _ _ _ (Nat.le_refl _))
  have kind : packet pingIcmp = 0 := (whole pingIcmp (by decide) (by decide)).trans replied.kind
  have header : headerLength packet = 20 :=
    (headerLength_agree ((whole 14 (Nat.le_refl _) (by decide)).trans (replied.front 14 (by decide) (by decide)))).trans
      reads.header
  refine ⟨type, ?_, ?_, ?_, ?_, ?_, ?_, kind, ?_, fun len => ?_⟩
  · exact (macAt_agree (same.mono (Nat.le_refl _) (by decide))).trans (framed_dest ..)
  · exact (macAt_agree (same.mono (Nat.zero_le _) (by decide))).trans (framed_source ..)
  · rw [load_agree (whole.mono (by decide) (by decide)), replied.src, reads.dest]
    exact ours
  · rw [load_agree (whole.mono (by decide) (by decide)), replied.dest, reads.src]
    exact Nat.mod_eq_of_lt valid
  · rw [networkChecksum_agree (whole.mono (Nat.le_refl _) (by decide))]
    exact replied.header
  · rw [networkChecksum_agree (whole.mono (by decide) (by decide))]
    exact replied.message
  · exact (whole.mono (by decide) (by decide)).trans ((replied.data _).trans (body.mono (by decide) (by decide)))
  · obtain ⟨low, high⟩ := (load_word_iff 0 8).mp type
    rw [handlePacket_ipv4 low high, handleIpv4_other (.inr ?_)]
    rw [icmpType, header, kind]
    decide

/-- A ping comes back to the machine that sent it, whatever else the buffers hold. -/
theorem ping_round_trip (valid : asker.ip < 2 ^ 32) (ours : targetIp % 2 ^ 32 = owner.ip) (destMac : Mac)
    (behind : Nat → UInt8) :
    ∃ reply,
      (networkHandlePacket owner (extended (echoRequest asker targetIp destMac) behind)
        (echoRequest asker targetIp destMac).length).config = owner ∧
      (networkHandlePacket owner (extended (echoRequest asker targetIp destMac) behind)
        (echoRequest asker targetIp destMac).length).sent = [reply] ∧
      reply.length = (echoRequest asker targetIp destMac).length ∧
      ∀ behind, PingReplied asker owner targetIp (extended reply behind) := by
  have size : (echoRequest asker targetIp destMac).length = 74 := networkSendPacket_length _ _ _ _ _
  have same : Agree (extended (echoRequest asker targetIp destMac) behind)
      (framed asker (echoPacket asker targetIp) destMac 0x0800) 0 74 := networkSendPacket_received _ _ _ _ _ behind
  have type : load (extended (echoRequest asker targetIp destMac) behind) ethType 2 = 0x0800 :=
    received_type (by decide) behind
  rw [size]
  generalize extended (echoRequest asker targetIp destMac) behind = request at same type ⊢
  have body : Agree request (echoPacket asker targetIp) ethernetHeaderSize 60 :=
    (same.mono (Nat.zero_le _) (by decide)).trans (framed_data _ _ _ _ (Nat.le_refl _))
  have sender : macAt request ethSrcMac = asker.mac :=
    (macAt_agree (same.mono (Nat.zero_le _) (by decide))).trans (framed_source ..)
  have reads : PingReads asker targetIp request :=
    (echoPacket_reads asker targetIp).agree (body.mono (Nat.le_refl _) (by decide))
  obtain ⟨kept, sent⟩ := reads.answered ours type 74
  have replied : EchoReplied request (echoAnswer request pingIcmp (74 : Nat)).1 pingIcmp 74 :=
    echoAnswer_replied (by rw [reads.header]) (by decide) (by decide)
  have back : macAt (echoAnswer request pingIcmp (74 : Nat)).1 ethSrcMac = asker.mac :=
    (macAt_agree (replied.front.mono (Nat.zero_le _) (by decide))).trans sender
  refine ⟨_, kept, sent, networkSendPacket_length owner _ 60 _ _, fun behind => ?_⟩
  rw [back]
  exact reply_received reads valid ours body replied behind

/-- A machine at 10.0.0.1 or 10.0.0.2. -/
private def machine (second : Bool) : NetworkConfig :=
  ⟨fun _ => if second then 2 else 1, if second then 0x0A000002 else 0x0A000001, fun _ => ⟨0, fun _ => 0, false⟩⟩

theorem ping_round_trip_machine :
    ∃ reply, ∀ behind, PingReplied (machine false) (machine true) 0x0A000002 (extended reply behind) := by
  obtain ⟨reply, -, -, -, replied⟩ := @ping_round_trip (machine false) (machine true) 0x0A000002 (by decide) (by decide)
    broadcastMac fun _ => 0
  exact ⟨reply, replied⟩

end Pings

end Kernix.Proofs
