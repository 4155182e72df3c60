import Kernix.Proofs.PacketReads

/-! Frames that are shorter than what their fields make the handler read. Behind the bytes
of the frame the buffer holds whatever was there before. On the wire a number of several
bytes has its most significant byte first; the handler compares the type of a frame the
other way around. -/

namespace Kernix.Proofs
open ByteMemory

variable {config : NetworkConfig} {packet first second : Memory} {frame : List UInt8} {index : Nat} {byte : UInt8}

/-- The frame stands at the front of the buffer. -/
def Starts (packet : Memory) (frame : List UInt8) : Prop := ∀ index byte, frame[index]? = some byte → packet index = byte

/-- The lengths that are passed on are not negative, and lie within the frame. -/
def LengthsInside (effects : PacketEffects) (len : Nat) : Prop :=
  ∀ call ∈ effects.calls, 0 ≤ call.len ∧ call.address + call.len ≤ len

/-- What is done with a frame depends on nothing but its bytes, and no length that is
passed on leaves it. -/
def Contained (frame : List UInt8) : Prop :=
  ∀ config first, Starts first frame →
    LengthsInside (networkHandlePacket config first frame.length) frame.length ∧
      ∀ second, Starts second frame →
        (networkHandlePacket config first frame.length).config = (networkHandlePacket config second frame.length).config ∧
          (networkHandlePacket config first frame.length).sent = (networkHandlePacket config second frame.length).sent

/-- An ARP frame that is long enough for its operation, or has another one. -/
def ArpDecided (frame : List UInt8) : Prop :=
  (∃ low, frame[20]? = some low ∧ low ≠ 0) ∨
    ∃ high, frame[21]? = some high ∧ (high = 1 → 42 ≤ frame.length) ∧ (high = 2 → 32 ≤ frame.length)

/-- An IPv4 frame of another protocol, or with the first byte of its message. An echo
request has a whole header as well. -/
def EchoDecided (frame : List UInt8) : Prop :=
  (∃ protocol, frame[23]? = some protocol ∧ protocol ≠ 1) ∨
    ∃ version type, frame[14]? = some version ∧ frame[14 + (version.toNat &&& 15) * 4]? = some type ∧
      (type = 8 → 34 ≤ frame.length)

/-- The frame has all the bytes that decide what is done with it. -/
def SelfContained (frame : List UInt8) : Prop :=
  ∃ low, frame[12]? = some low ∧ (low ≠ 6 ∧ low ≠ 0 ∨
    ∃ high, frame[13]? = some high ∧ (low = 6 → high = 8 → ArpDecided frame) ∧ (low = 0 → high = 8 → EchoDecided frame))

section Decided

theorem Starts.agree (starts : Starts first frame) (others : Starts second frame) :
    Agree first second 0 frame.length := by
  intro position _ inside
  rw [Nat.zero_add] at inside
  have found := List.getElem?_eq_getElem inside
  rw [starts _ _ found, others _ _ found]

/-- Frames that nothing is done with. -/
theorem contained_ignored (ignored : ∀ config packet, Starts packet frame →
    networkHandlePacket config packet frame.length = ⟨config, [], []⟩) : Contained frame := by
  intro config first starts
  rw [ignored config first starts]
  refine ⟨fun _ member => absurd member List.not_mem_nil, ?_⟩
  intro second others
  rw [ignored config second others]
  exact ⟨rfl, rfl⟩

/-- The effects of two packets that the frame does not tell apart. -/
theorem contained_same (lengths : ∀ config packet, Starts packet frame →
      LengthsInside (networkHandlePacket config packet frame.length) frame.length)
    (same : ∀ config first second, Starts first frame → Starts second frame → Agree first second 0 frame.length →
      (networkHandlePacket config first frame.length).config = (networkHandlePacket config second frame.length).config ∧
        (networkHandlePacket config first frame.length).sent = (networkHandlePacket config second frame.length).sent) :
    Contained frame :=
  fun config first starts => ⟨lengths config first starts, fun second others =>
    same config first second starts others (starts.agree others)⟩

theorem handleArp_lengths {len : Nat} (whole : 42 ≤ len) : LengthsInside (handleArp config packet) len := by
  have none : LengthsInside ⟨config, [], []⟩ len := fun _ member => absurd member List.not_mem_nil
  unfold handleArp
  dsimp only
  split
  · split
    · intro call member
      cases List.mem_singleton.mp member
      exact ⟨by decide, Int.ofNat_le.mpr whole⟩
    · exact none
  · split
    · exact none
    · exact none

theorem handleArp_agree {len : Nat} (same : Agree first second 0 len) (whole : 42 ≤ len) :
    (handleArp config first).config = (handleArp config second).config ∧
      (handleArp config first).sent = (handleArp config second).sent := by
  have word {start width : Nat} (inside : start + width ≤ 42) : load first start width = load second start width :=
    load_agree (same.mono (by omega) (by omega))
  have mac {left right : Memory} (agree : Agree left right 0 len) {start : Nat} (inside : start + 6 ≤ 42) :
      macAt left start = macAt right start := macAt_agree (agree.mono (by omega) (by omega))
  have answers : Agree (arpAnswer config first) (arpAnswer config second) 0 len := arpAnswer_agree same whole
  unfold handleArp
  dsimp only
  rw [word (by decide : arpOper + 2 ≤ 42), word (by decide : arpTpa + 4 ≤ 42), word (by decide : arpSpa + 4 ≤ 42),
    mac same (by decide : arpSha + 6 ≤ 42), mac answers (by decide : ethSrcMac + 6 ≤ 42),
    networkSendPacket_agree (answers.mono (Nat.zero_le _) (by unfold ethernetHeaderSize arpHeaderSize; omega))]
  exact ⟨rfl, rfl⟩

theorem contained_arp (low : frame[12]? = some 6) (high : frame[13]? = some 8) (decided : ArpDecided frame) :
    Contained frame := by
  have arp (config : NetworkConfig) (packet : Memory) (starts : Starts packet frame) :
      networkHandlePacket config packet frame.length = handleArp config packet :=
    handlePacket_arp (starts 12 6 low) (starts 13 8 high) _
  by_cases whole : 42 ≤ frame.length
  · apply contained_same
    · intro config packet starts
      rw [arp config packet starts]
      exact handleArp_lengths whole
    · intro config first second starts others same
      rw [arp config first starts, arp config second others]
      exact handleArp_agree same whole
  rcases decided with ⟨other, here, wrong⟩ | ⟨kind, here, request, reply⟩
  · apply contained_ignored
    intro config packet starts
    have value := starts 20 other here
    rw [arp config packet starts, handleArp_other]
    · exact fun both => wrong (value.symm.trans both.1)
    · exact fun both => wrong (value.symm.trans both.1)
  · have inside := (List.getElem?_eq_some_iff.mp here).1
    obtain ⟨start, first'⟩ : ∃ start, frame[20]? = some start := ⟨_, List.getElem?_eq_getElem (by omega)⟩
    by_cases answers : start = 0 ∧ kind = 2
    · obtain ⟨rfl, rfl⟩ := answers
      have long := reply rfl
      have recorded (config : NetworkConfig) (packet : Memory) (starts : Starts packet frame) :=
        (arp config packet starts).trans (handleArp_reply (starts 20 0 first') (starts 21 2 here))
      apply contained_same
      · intro config packet starts
        rw [recorded config packet starts]
        exact fun _ member => absurd member List.not_mem_nil
      · intro config first second starts others same
        rw [recorded config first starts, recorded config second others,
          load_agree (same.mono (Nat.zero_le _) (by unfold arpSpa ethernetHeaderSize; omega)),
          macAt_agree (same.mono (Nat.zero_le _) (by unfold arpSha ethernetHeaderSize; omega))]
        exact ⟨rfl, rfl⟩
    · apply contained_ignored
      intro config packet starts
      have value := starts 21 kind here
      rw [arp config packet starts, handleArp_other]
      · exact fun both => whole (request (value.symm.trans both.2))
      · exact fun both => answers ⟨(starts 20 start first').symm.trans both.1, value.symm.trans both.2⟩

theorem handleIpv4_lengths {len : Nat} (echo : icmpType packet = 8)
    (fits : ethernetHeaderSize + headerLength packet < len) :
    LengthsInside (handleIpv4 config packet len) len := by
  have none : LengthsInside ⟨config, [], []⟩ len := fun _ member => absurd member List.not_mem_nil
  have behind : 18 ≤ ethernetHeaderSize + headerLength packet := Nat.add_le_add_left (echo_behind echo) 14
  unfold handleIpv4
  dsimp only
  split
  · split
    · intro call member
      dsimp only at member
      rw [echoAnswer_calls behind] at member
      simp only [List.cons_append, List.nil_append, List.mem_cons, List.not_mem_nil, or_false] at member
      rcases member with rfl | rfl | rfl
      · dsimp only
        omega
      · dsimp only
        omega
      · dsimp only
        omega
    · exact none
  · exact none

theorem handleIpv4_agree {len : Nat} (same : Agree first second 0 len) (whole : 34 ≤ len) (echo : icmpType second = 8)
    (fits : ethernetHeaderSize + headerLength second < len) :
    (handleIpv4 config first len).config = (handleIpv4 config second len).config ∧
      (handleIpv4 config first len).sent = (handleIpv4 config second len).sent := by
  have behind : 18 ≤ ethernetHeaderSize + headerLength second := Nat.add_le_add_left (echo_behind echo) 14
  have length : headerLength first = headerLength second := headerLength_agree (same 14 (Nat.zero_le _) (by omega))
  have typed : icmpType first = 8 := by
    rw [icmpType, length]
    exact (same _ (Nat.zero_le _) (by omega)).trans echo
  have answers := echoAnswer_agree same whole behind (Nat.le_of_lt fits) rfl
  have rest : (len : Int) - ethernetHeaderSize = ((len - ethernetHeaderSize : Nat) : Int) := by omega
  have protocol : first 23 = second 23 := same 23 (Nat.zero_le _) (by omega)
  by_cases icmp : second 23 = 1
  · rw [handleIpv4_echo (protocol.trans icmp) typed, handleIpv4_echo icmp echo, length,
      load_agree (same.mono (Nat.zero_le _) (by unfold ipDest ethernetHeaderSize; omega)), rest,
      macAt_agree (answers.mono (Nat.zero_le _) (by unfold ethSrcMac; omega)),
      networkSendPacket_agree (answers.mono (Nat.zero_le _) (by omega))]
    split <;> exact ⟨rfl, rfl⟩
  · rw [handleIpv4_other (.inl fun one => icmp (protocol.symm.trans one)), handleIpv4_other (.inl icmp)]
    exact ⟨rfl, rfl⟩

theorem contained_echo (low : frame[12]? = some 0) (high : frame[13]? = some 8) (decided : EchoDecided frame) :
    Contained frame := by
  have ipv4 (config : NetworkConfig) (packet : Memory) (starts : Starts packet frame) :
      networkHandlePacket config packet frame.length = handleIpv4 config packet frame.length :=
    handlePacket_ipv4 (starts 12 0 low) (starts 13 8 high) _
  rcases decided with ⟨protocol, here, wrong⟩ | ⟨version, type, here, there, whole⟩
  · apply contained_ignored
    intro config packet starts
    have value := starts 23 protocol here
    rw [ipv4 config packet starts, handleIpv4_other (.inl fun icmp => wrong (value.symm.trans icmp))]
  have place (packet : Memory) (starts : Starts packet frame) : icmpType packet = type := by
    rw [icmpType, headerLength_eq, starts 14 version here]
    exact starts _ type there
  by_cases echo : type = 8
  · have long := whole echo
    have inside := (List.getElem?_eq_some_iff.mp there).1
    have fits (packet : Memory) (starts : Starts packet frame) : ethernetHeaderSize + headerLength packet < frame.length := by
      rw [headerLength_eq, starts 14 version here]
      exact inside
    apply contained_same
    · intro config packet starts
      rw [ipv4 config packet starts]
      exact handleIpv4_lengths ((place packet starts).trans echo) (fits packet starts)
    · intro config first second starts others same
      rw [ipv4 config first starts, ipv4 config second others]
      exact handleIpv4_agree same long ((place second others).trans echo) (fits second others)
  · apply contained_ignored
    intro config packet starts
    rw [ipv4 config packet starts, handleIpv4_other (.inr fun asks => echo ((place packet starts).symm.trans asks))]

end Decided

section Undecided

/-- A buffer with the frame at its front and other bytes behind it. -/
def extended (frame : List UInt8) (behind : Nat → UInt8) : Memory := fun index => (frame[index]?).getD (behind index)

theorem extended_starts (frame : List UInt8) (behind : Nat → UInt8) : Starts (extended frame behind) frame := by
  intro index byte found
  rw [extended, found]
  rfl

theorem extended_behind (behind : Nat → UInt8) (outside : frame[index]? = none) :
    extended frame behind index = behind index := by
  rw [extended, outside]
  rfl

/-- A byte that is the same in the frame and behind it. -/
theorem extended_either (behind : Nat → UInt8) (inside : ∀ value, frame[index]? = some value → value = byte)
    (outside : behind index = byte) : extended frame behind index = byte := by
  rw [extended]
  cases found : frame[index]? with
  | none => exact outside
  | some value => exact inside value found

/-- A configuration with an empty table. -/
def emptyConfig (ip : Nat) : NetworkConfig := ⟨fun _ => 0, ip, fun _ => ⟨0, fun _ => 0, false⟩⟩

/-- Two ways to go on behind the frame, of which only one has an effect. -/
structure ToldApart (frame : List UInt8) (config : NetworkConfig) (first second : Memory) : Prop where
  starts : Starts first frame
  others : Starts second frame
  differ : (networkHandlePacket config first frame.length).config =
    (networkHandlePacket config second frame.length).config →
    (networkHandlePacket config first frame.length).sent ≠ (networkHandlePacket config second frame.length).sent

theorem ToldApart.not_contained (apart : ToldApart frame config first second) : ¬Contained frame := by
  intro contained
  obtain ⟨table, sent⟩ := (contained config first apart.starts).2 second apart.others
  exact apart.differ table sent

/-- The bytes of an ARP reply, and zeroes. -/
def replyBytes : Nat → UInt8 := fun index => if index = 12 then 6 else if index =
    13 then 8 else if index = 21 then 2 else 0

/-- The bytes of an echo request whose header has its usual length. -/
def echoBytes : Nat → UInt8 := fun index => if index = 14 then 0x45 else if index = 23 then 1 else 8

theorem arpRecord_first (table : Fin arpTableSize → ArpEntry) (spa : Nat) (sha : Mac) (free : (table 0).valid = false) :
    arpRecord table spa sha (List.finRange arpTableSize) 0 = ⟨spa, sha, true⟩ := by
  rw [List.finRange_succ, arpRecord, free]
  simp

/-- A reply puts its sender into an empty table. -/
theorem reply_recorded (low : packet 12 = 6) (high : packet 13 = 8) (start : packet 20 = 0) (kind : packet 21 = 2)
    (ip : Nat) (len : Int) : (networkHandlePacket (emptyConfig ip) packet len).config.arpTable 0 =
      ⟨load packet arpSpa 4, macAt packet arpSha, true⟩ := by
  rw [handlePacket_arp low high, handleArp_reply start kind]
  exact arpRecord_first (emptyConfig ip).arpTable _ _ rfl

theorem reply_apart (starts : Starts first frame) (low : first 12 = 6) (high : first 13 = 8) (start : first 20 = 0)
    (kind : first 21 = 2) (others : Starts second frame) (ignored : ∀ config,
      networkHandlePacket config second frame.length = ⟨config, [], []⟩) : ToldApart frame
        (emptyConfig 0) first second := by
  refine ⟨starts, others, ?_⟩
  intro same
  have recorded := reply_recorded low high start kind 0 frame.length
  rw [same, ignored] at recorded
  have valid : false = true := congrArg ArpEntry.valid recorded
  cases valid

theorem sent_apart (starts : Starts first frame) (others : Starts second frame)
    (some : (networkHandlePacket config first frame.length).sent ≠ [])
    (none : (networkHandlePacket config second frame.length).sent = []) : ToldApart frame config first second := by
  refine ⟨starts, others, ?_⟩
  intro _
  rwa [none]

theorem echo_sent (low : packet 12 = 0) (high : packet 13 = 8) (icmp : packet 23 = 1) (echo : icmpType packet = 8)
    (len : Int) :
    (networkHandlePacket (emptyConfig (load packet ipDest 4)) packet len).sent ≠ [] := by
  rw [handlePacket_ipv4 low high, handleIpv4_echo icmp echo, if_pos (.inl rfl)]
  exact List.cons_ne_nil _ _

theorem request_sent (low : packet 12 = 6) (high : packet 13 = 8) (start : packet 20 = 0) (kind : packet 21 = 1)
    (len : Int) :
    (networkHandlePacket (emptyConfig (load packet arpTpa 4)) packet len).sent ≠ [] := by
  have asked : load packet arpTpa 4 = (emptyConfig (load packet arpTpa 4)).ip := rfl
  rw [handlePacket_arp low high, handleArp_request start kind, if_pos asked]
  exact List.cons_ne_nil _ _

/-- A byte that a load tells apart. -/
theorem load_apart {count offset : Nat} (inside : offset < count)
    (apart : first (index + offset) ≠ second (index + offset)) :
    load first index count ≠ load second index count := by
  intro same
  rw [← byte_load first index inside, ← byte_load second index inside, same] at apart
  exact apart rfl

/-- The bytes in front of the fields of the protocols are missing. -/
theorem told_short (short : frame[12]? = none ∨ frame[12]? = some 6 ∧ frame[13]? = none) :
    ∃ first second, ToldApart frame (emptyConfig 0) first second := by
  refine ⟨extended frame replyBytes, extended frame fun _ => 255, ?_⟩
  have later (index : Nat) (behind : 13 ≤ index) : frame[index]? = none := by
    rcases short with early | ⟨-, early⟩
    · exact List.getElem?_eq_none (Nat.le_trans (List.getElem?_eq_none_iff.mp early) (by omega))
    · exact List.getElem?_eq_none (Nat.le_trans (List.getElem?_eq_none_iff.mp early) behind)
  have reply (index : Nat) (behind : 13 ≤ index) : extended frame replyBytes index = replyBytes index :=
    extended_behind _ (later index behind)
  have full (index : Nat) (behind : 13 ≤ index) : extended frame (fun _ => 255) index = 255 :=
    extended_behind _ (later index behind)
  have low : extended frame replyBytes 12 = 6 := by
    apply extended_either _ ?_ rfl
    intro value found
    rcases short with early | ⟨early, -⟩
    · cases early.symm.trans found
    · exact (Option.some.inj (early.symm.trans found)).symm
  apply reply_apart (extended_starts _ _) low (reply 13 (by decide)) (reply 20 (by decide)) (reply 21 (by decide))
    (extended_starts _ _)
  intro config
  have other : extended frame (fun _ => 255) 13 ≠ 8 := by
    rw [full 13 (Nat.le_refl _)]
    decide
  exact handlePacket_other (fun both => other both.2) (fun both => other both.2) _

/-- An IPv4 frame that may still turn out to be an echo request. -/
theorem told_echo (low : frame[12]? = some 0) (high : ∀ value, frame[13]? = some value → value = 8)
    (protocol : ∀ value, frame[23]? = some value → value = 1)
    (open_ : ∀ version type, frame[14]? = some version → frame[14 + (version.toNat &&& 15) * 4]? = some type →
      type = 8 ∧ frame.length < 34) :
    ∃ config first second, ToldApart frame config first second := by
  have known {behind : Nat → UInt8} (index : Nat) (byte : UInt8) (found : frame[index]? = some byte) :
      extended frame behind index = byte := extended_starts frame behind index byte found
  have isIpv4 : extended frame echoBytes 13 = 8 := extended_either _ high rfl
  have isIcmp : extended frame echoBytes 23 = 1 := extended_either _ protocol rfl
  have echo : icmpType (extended frame echoBytes) = 8 := by
    rw [icmpType, headerLength_eq]
    cases first : frame[14]? with
    | some version =>
      rw [known 14 version first]
      cases there : frame[14 + (version.toNat &&& 15) * 4]? with
      | some type => exact (known _ type there).trans (open_ version type first there).1
      | none =>
        have other : 14 + (version.toNat &&& 15) * 4 ≠ 14 := by
          intro same
          rw [same, first] at there
          cases there
        refine (extended_behind _ there).trans ?_
        unfold echoBytes
        rw [if_neg other, if_neg (by omega)]
    | none =>
      rw [extended_behind _ first]
      exact extended_behind _ (List.getElem?_eq_none (Nat.le_trans (List.getElem?_eq_none_iff.mp first) (by decide)))
  have sends := echo_sent (known 12 0 low) isIpv4 isIcmp echo frame.length
  by_cases short : frame.length < 34
  · -- the last byte of the destination is not in the frame
    have missing : frame[33]? = none := List.getElem?_eq_none (by omega)
    have stranger : extended frame (fun index => if index = 13 then 8 else 9) 33 = 9 := extended_behind _ missing
    have asked : extended frame echoBytes 33 = 8 := extended_behind _ missing
    refine ⟨_, _, extended frame fun index => if index = 13 then 8 else 9,
      sent_apart (extended_starts _ _) (extended_starts _ _) sends ?_⟩
    rw [handlePacket_ipv4 (known 12 0 low) (extended_either _ high rfl), handleIpv4_stranger]
    · apply load_apart (by decide : 3 < 4)
      rw [stranger, asked]
      decide
    · intro broadcast
      have last := byte_load (extended frame fun index => if index = 13 then 8 else 9) ipDest (by decide : 3 < 4)
      rw [broadcast, stranger] at last
      exact absurd last (by decide)
  · -- the type is not in the frame
    obtain ⟨version, first⟩ : ∃ version, frame[14]? = some version := ⟨_, List.getElem?_eq_getElem (by omega)⟩
    obtain ⟨value, second⟩ : ∃ value, frame[13]? = some value := ⟨_, List.getElem?_eq_getElem (by omega)⟩
    have missing : frame[14 + (version.toNat &&& 15) * 4]? = none := by
      rw [Option.eq_none_iff_forall_ne_some]
      intro type there
      exact short (open_ version type first there).2
    have silent : icmpType (extended frame fun _ => 0) = 0 := by
      rw [icmpType, headerLength_eq, known 14 version first]
      exact extended_behind _ missing
    refine ⟨_, _, extended frame fun _ => 0, sent_apart (extended_starts _ _) (extended_starts _ _) sends ?_⟩
    have isIpv4' : extended frame (fun _ => 0) 13 = 8 := (known 13 value second).trans (high value second)
    rw [handlePacket_ipv4 (known 12 0 low) isIpv4', handleIpv4_other (.inr (by rw [silent]; decide))]

/-- An ARP frame that ends in front of its operation, or of an address that this one needs. -/
theorem told_arp (low : frame[12]? = some 6) (high : frame[13]? = some 8) (undecided : ¬ArpDecided frame) :
    ∃ config first second, ToldApart frame config first second := by
  have known {behind : Nat → UInt8} (index : Nat) (byte : UInt8) (found : frame[index]? = some byte) :
      extended frame behind index = byte := extended_starts frame behind index byte found
  obtain ⟨start, kind⟩ := not_or.mp undecided
  have zero (value : UInt8) (found : frame[20]? = some value) : value = 0 := by
    by_contra other
    exact start ⟨value, found, other⟩
  have begins {behind : Nat → UInt8} (clear : behind 20 = 0) : extended frame behind 20 = 0 :=
    extended_either _ zero clear
  cases here : frame[21]? with
  | none =>
    refine ⟨_, _, extended frame fun _ => 255,
      reply_apart (extended_starts _ replyBytes) (known 12 6 low) (known 13 8 high)
      (begins rfl) (extended_behind _ here) (extended_starts _ _) ?_⟩
    intro config
    have full : extended frame (fun _ => 255) 21 = 255 := extended_behind _ here
    rw [handlePacket_arp (known 12 6 low) (known 13 8 high), handleArp_other]
    · exact fun both => absurd (full.symm.trans both.2) (by decide)
    · exact fun both => absurd (full.symm.trans both.2) (by decide)
  | some value =>
    have short : value = 1 ∧ frame.length < 42 ∨ value = 2 ∧ frame.length < 32 := by
      by_contra long
      obtain ⟨request, reply⟩ := not_or.mp long
      exact kind ⟨value, here, fun asks => Nat.le_of_not_lt fun small => request ⟨asks, small⟩,
        fun answers => Nat.le_of_not_lt fun small => reply ⟨answers, small⟩⟩
    rcases short with ⟨rfl, short⟩ | ⟨rfl, short⟩
    · -- the last byte of the target is not in the frame
      have missing : frame[41]? = none := List.getElem?_eq_none (by omega)
      have asked : extended frame (fun _ => 0) 41 = 0 := extended_behind _ missing
      have stranger : extended frame (fun index => if index = 41 then 1 else 0) 41 = 1 := extended_behind _ missing
      refine ⟨emptyConfig (load (extended frame fun _ => 0) arpTpa 4), extended frame fun _ => 0,
        extended frame fun index => if index = 41 then 1 else 0,
        sent_apart (extended_starts _ _) (extended_starts _ _) ?_ ?_⟩
      · exact request_sent (known 12 6 low) (known 13 8 high) (begins rfl) (known 21 1 here) _
      · rw [handlePacket_arp (known 12 6 low) (known 13 8 high), handleArp_request (begins rfl) (known 21 1 here), if_neg]
        apply load_apart (by decide : 3 < 4)
        rw [stranger, asked]
        decide
    · -- the last byte of the sender is not in the frame
      have missing : frame[31]? = none := List.getElem?_eq_none (by omega)
      have sender : extended frame (fun _ => 0) 31 = 0 := extended_behind _ missing
      have other : extended frame (fun index => if index = 31 then 1 else 0) 31 = 1 := extended_behind _ missing
      refine ⟨emptyConfig 0, extended frame fun _ => 0, extended frame fun index => if index = 31 then 1 else 0,
        extended_starts _ _, extended_starts _ _, ?_⟩
      intro same
      have recorded {behind : Nat → UInt8} (clear : behind 20 = 0) :=
        reply_recorded (known 12 6 low : extended frame behind 12 = 6)
        (known 13 8 high) (begins clear) (known 21 2 here) 0 frame.length
      have entries := (recorded rfl).symm.trans ((congrArg (fun config => config.arpTable 0) same).trans (recorded rfl))
      refine absurd (congrArg ArpEntry.ip entries) (load_apart (by decide : 3 < 4) ?_)
      rw [sender, other]
      decide

theorem told_undecided (undecided : ¬SelfContained frame) :
    ∃ config first second, ToldApart frame config first second := by
  cases low : frame[12]? with
  | none => exact ⟨_, told_short (.inl low)⟩
  | some low' =>
    have rest (high : ∃ high, frame[13]? = some high ∧ (low' = 6 → high = 8 → ArpDecided frame) ∧
        (low' = 0 → high = 8 → EchoDecided frame)) : False := undecided ⟨low', low, .inr high⟩
    have special : low' = 6 ∨ low' = 0 := by
      by_contra other
      exact undecided ⟨low', low, .inl (not_or.mp other)⟩
    have noEcho (open_ : ¬EchoDecided frame) : (∀ value, frame[23]? = some value → value = 1) ∧
        ∀ version type, frame[14]? = some version → frame[14 + (version.toNat &&& 15) * 4]? = some type →
          type = 8 ∧ frame.length < 34 := by
      obtain ⟨protocol, kind⟩ := not_or.mp open_
      constructor
      · intro value found
        by_contra other
        exact protocol ⟨value, found, other⟩
      · intro version type first there
        by_contra other
        exact kind ⟨version, type, first, there, fun echo => Nat.le_of_not_lt fun small => other ⟨echo, small⟩⟩
    cases high : frame[13]? with
    | none =>
      rcases special with rfl | rfl
      · exact ⟨_, told_short (.inr ⟨low, high⟩)⟩
      · have none (index : Nat) (behind : 13 ≤ index) : frame[index]? = none :=
          List.getElem?_eq_none (Nat.le_trans (List.getElem?_eq_none_iff.mp high) behind)
        refine told_echo low (fun value found => ?_) (fun value found => ?_) (fun version type found => ?_)
        · cases high.symm.trans found
        · cases (none 23 (by decide)).symm.trans found
        · cases (none 14 (by decide)).symm.trans found
    | some high' =>
      rcases special with rfl | rfl
      · have open_ : high' = 8 ∧ ¬ArpDecided frame := by
          by_contra closed
          exact rest ⟨high', high, fun _ eight => not_not.mp fun open_ => closed ⟨eight, open_⟩,
            fun zero => absurd zero (by decide)⟩
        obtain ⟨rfl, open_⟩ := open_
        exact told_arp low high open_
      · have open_ : high' = 8 ∧ ¬EchoDecided frame := by
          by_contra closed
          exact rest ⟨high', high, fun six => absurd six (by decide),
            fun _ eight => not_not.mp fun open_ => closed ⟨eight, open_⟩⟩
        obtain ⟨rfl, open_⟩ := open_
        obtain ⟨protocol, kind⟩ := noEcho open_
        exact told_echo low (fun value found => Option.some.inj (found.symm.trans high)) protocol kind

end Undecided

/-- The handler keeps to the bytes of the frames that have all that decides about them. -/
theorem packet_contained_iff (frame : List UInt8) : Contained frame ↔ SelfContained frame := by
  constructor
  · intro contained
    by_contra undecided
    obtain ⟨config, first, second, apart⟩ := told_undecided undecided
    exact apart.not_contained contained
  · rintro ⟨low, first, other | ⟨high, second, arp, ipv4⟩⟩
    · apply contained_ignored
      intro config packet starts
      have value := starts 12 low first
      exact handlePacket_other (fun both => other.1 (value.symm.trans both.1))
        (fun both => other.2 (value.symm.trans both.1)) _
    · by_cases isArp : low = 6 ∧ high = 8
      · obtain ⟨rfl, rfl⟩ := isArp
        exact contained_arp first second (arp rfl rfl)
      by_cases isIpv4 : low = 0 ∧ high = 8
      · obtain ⟨rfl, rfl⟩ := isIpv4
        exact contained_echo first second (ipv4 rfl rfl)
      apply contained_ignored
      intro config packet starts
      have value := starts 12 low first
      have next := starts 13 high second
      exact handlePacket_other (fun both => isArp ⟨value.symm.trans both.1, next.symm.trans both.2⟩)
        (fun both => isIpv4 ⟨value.symm.trans both.1, next.symm.trans both.2⟩) _

/-- A frame of sixty bytes whose IPv4 header should have sixty bytes of its own. -/
private def longHeader : List UInt8 :=
  List.replicate 13 0 ++ [8, 0x4F] ++ List.replicate 8 0 ++ [1] ++ List.replicate 36 0

/-- The type of the message is what the buffer held before. -/
theorem packet_not_contained : ¬∀ frame : List UInt8, Contained frame := by
  intro contained
  have told : ∃ config first second, ToldApart longHeader config first second := by
    refine told_echo (by decide) (fun value found => ?_) (fun value found => ?_) (fun version type found there => ?_)
    · exact (Option.some.inj found).symm
    · exact (Option.some.inj found).symm
    · cases found
      cases there
  obtain ⟨config, first, second, apart⟩ := told
  exact apart.not_contained (contained longHeader)

section Wire

variable {config : NetworkConfig} {frame : List UInt8}

section Formats

/-- A number on the wire. -/
def bigEndian (bytes : List UInt8) : Nat := bytes.foldl (fun value byte => 256 * value + byte.toNat) 0

/-- The bytes of a field. -/
def fieldBytes (frame : List UInt8) (start count : Nat) : List UInt8 := (frame.drop start).take count

def wireField (frame : List UInt8) (start count : Nat) : Nat := bigEndian (fieldBytes frame start count)

/-- The sum that the checksum of the internet protocols is made of. -/
def wireSum : List UInt8 → Nat
  | [] => 0
  | [last] => 256 * last.toNat
  | high :: low :: rest => 256 * high.toNat + low.toNat + wireSum rest

/-- With its checksum among them the words add up to zero in ones' complement. -/
def ChecksumValid (bytes : List UInt8) : Prop := 0 < wireSum bytes ∧ wireSum bytes % 0xFFFF = 0

/-- An ARP message about Ethernet and IPv4 addresses. -/
structure IsArp (frame : List UInt8) (operation : Nat) : Prop where
  whole : 42 ≤ frame.length
  type : wireField frame 12 2 = 0x0806
  htype : wireField frame 14 2 = 1
  ptype : wireField frame 16 2 = 0x0800
  hlen : wireField frame 18 1 = 6
  plen : wireField frame 19 1 = 4
  oper : wireField frame 20 2 = operation

/-- The length of the header of an IPv4 frame. -/
def wireHeader (frame : List UInt8) : Nat := wireField frame 14 1 % 16 * 4

structure IsIpv4 (frame : List UInt8) : Prop where
  type : wireField frame 12 2 = 0x0800
  version : wireField frame 14 1 / 16 = 4
  header : 20 ≤ wireHeader frame
  longer : wireHeader frame ≤ wireField frame 16 2
  whole : 14 + wireField frame 16 2 ≤ frame.length
  checksum : ChecksumValid (fieldBytes frame 14 (wireHeader frame))

/-- The ICMP message of an IPv4 frame. -/
def wireMessage (frame : List UInt8) : List UInt8 :=
  fieldBytes frame (14 + wireHeader frame) (wireField frame 16 2 - wireHeader frame)

/-- An ICMP echo request (type 8) or reply (type 0). -/
structure IsEcho (frame : List UInt8) (type : Nat) : Prop where
  ipv4 : IsIpv4 frame
  protocol : wireField frame 23 1 = 1
  message : 8 ≤ (wireMessage frame).length
  type : wireField (wireMessage frame) 0 1 = type
  code : wireField (wireMessage frame) 1 1 = 0
  checksum : ChecksumValid (wireMessage frame)

/-- The reply tells the requester the address of the kernel. -/
structure ArpAnswered (config : NetworkConfig) (request reply : List UInt8) : Prop where
  arp : IsArp reply 2
  dest : fieldBytes reply 0 6 = fieldBytes request 6 6
  src : fieldBytes reply 6 6 = List.ofFn config.mac
  sha : fieldBytes reply 22 6 = List.ofFn config.mac
  spa : wireField reply 28 4 = config.ip
  tha : fieldBytes reply 32 6 = fieldBytes request 22 6
  tpa : wireField reply 38 4 = wireField request 28 4

/-- The reply sends the message back. -/
structure EchoAnswered (config : NetworkConfig) (request reply : List UInt8) : Prop where
  echo : IsEcho reply 0
  dest : fieldBytes reply 0 6 = fieldBytes request 6 6
  src : fieldBytes reply 6 6 = List.ofFn config.mac
  sender : wireField reply 26 4 = wireField request 30 4
  receiver : wireField reply 30 4 = wireField request 26 4
  message : (wireMessage reply).drop 4 = (wireMessage request).drop 4

end Formats

/-- An ARP request for the address of the kernel. -/
def AsksForUs (config : NetworkConfig) (frame : List UInt8) : Prop := IsArp frame 1 ∧ wireField frame 38 4 = config.ip

/-- An echo request that is addressed to the kernel. -/
def EchoesToUs (config : NetworkConfig) (frame : List UInt8) : Prop := IsEcho frame 8 ∧ wireField frame 30 4 = config.ip

/-- What a frame on the wire should be answered with. -/
structure AnsweredRight (config : NetworkConfig) (frame : List UInt8) (sent : List (List UInt8)) : Prop where
  arp : AsksForUs config frame → ∃ reply, sent = [reply] ∧ ArpAnswered config frame reply
  echo : EchoesToUs config frame → ∃ reply, sent = [reply] ∧ EchoAnswered config frame reply
  otherArp : IsArp frame 1 → wireField frame 38 4 ≠ config.ip → sent = []
  otherIpv4 : IsIpv4 frame → wireField frame 30 4 ≠ config.ip → sent = []

/-- The first byte of the type of a frame. -/
theorem type_high {high low : UInt8} (type : wireField frame 12 2 = 256 * high.toNat + low.toNat)
    (some_ : 0 < high.toNat) :
    frame[12]? = some high := by
  have bound := low.toNat_lt
  rw [← List.getElem?_drop (i := 12) (j := 0)]
  unfold wireField fieldBytes at type
  generalize frame.drop 12 = rest at type ⊢
  cases rest with
  | nil =>
    simp [bigEndian] at type
    omega
  | cons first rest =>
    have bound' := first.toNat_lt
    cases rest with
    | nil =>
      simp [bigEndian] at type
      omega
    | cons second rest =>
      have bound'' := second.toNat_lt
      simp only [bigEndian, List.take_succ_cons, List.take_zero, List.foldl_cons, List.foldl_nil, Nat.mul_zero,
        Nat.zero_add] at type
      simp only [List.getElem?_cons_zero, Option.some.injEq, ← UInt8.toNat_inj]
      omega

/-- The types of the two protocols start with a byte that the handler looks for at their end. -/
theorem wire_ignored {behind : Nat → UInt8} (first : frame[12]? = some 8) (len : Int) :
    networkHandlePacket config (extended frame behind) len = ⟨config, [], []⟩ := by
  have high := extended_starts frame behind 12 8 first
  apply handlePacket_other
  · exact fun both => absurd (high.symm.trans both.1) (by decide)
  · exact fun both => absurd (high.symm.trans both.1) (by decide)

theorem IsArp.ignored {operation : Nat} (arp : IsArp frame operation) (behind : Nat → UInt8) (len : Int) :
    (networkHandlePacket config (extended frame behind) len).sent = [] := by
  have type : wireField frame 12 2 = 256 * (8 : UInt8).toNat + (6 : UInt8).toNat := arp.type
  rw [wire_ignored (type_high type (by decide))]

theorem IsIpv4.ignored (ipv4 : IsIpv4 frame) (behind : Nat → UInt8) (len : Int) :
    (networkHandlePacket config (extended frame behind) len).sent = [] := by
  have type : wireField frame 12 2 = 256 * (8 : UInt8).toNat + (0 : UInt8).toNat := ipv4.type
  rw [wire_ignored (type_high type (by decide))]

/-- The handler is right about the frames that ask for no answer. -/
theorem wire_answered_iff (config : NetworkConfig) (frame : List UInt8) (behind : Nat → UInt8) :
    AnsweredRight config frame (networkHandlePacket config (extended frame behind) frame.length).sent ↔
      ¬AsksForUs config frame ∧ ¬EchoesToUs config frame := by
  constructor
  · intro right
    constructor
    · intro asks
      obtain ⟨reply, sent, -⟩ := right.arp asks
      rw [asks.1.ignored] at sent
      cases sent
    · intro echoes
      obtain ⟨reply, sent, -⟩ := right.echo echoes
      rw [echoes.1.ipv4.ignored] at sent
      cases sent
  · rintro ⟨noArp, noEcho⟩
    exact ⟨fun asks => absurd asks noArp, fun echoes => absurd echoes noEcho, fun arp _ => arp.ignored behind _,
      fun ipv4 _ => ipv4.ignored behind _⟩

/-- The configuration of `network_init`, with an address of the device. -/
private def initialConfig : NetworkConfig :=
  ⟨fun _ => 0x52, 0xC0A80101, fun _ => ⟨0, fun _ => 0, false⟩⟩

/-- Who has 192.168.1.1? -/
private def whoHas : List UInt8 :=
  [0xFF, 0xFF, 0xFF, 0xFF, 0xFF, 0xFF, 2, 0, 0, 0, 0, 1, 0x08, 0x06, 0, 1, 0x08, 0, 6, 4, 0, 1,
    2, 0, 0, 0, 0, 1, 192, 168, 1, 2, 0, 0, 0, 0, 0, 0, 192, 168, 1, 1]

/-- A request for the address of the kernel has no answer. -/
theorem wire_unanswered : ¬∀ (config : NetworkConfig) (frame : List UInt8) (behind : Nat → UInt8),
    AnsweredRight config frame (networkHandlePacket config (extended frame behind) frame.length).sent := by
  intro right
  have asks : AsksForUs initialConfig whoHas :=
    ⟨⟨by decide, by decide, by decide, by decide, by decide, by decide, by decide⟩, by decide⟩
  obtain ⟨reply, sent, -⟩ := (right initialConfig whoHas fun _ => 0).arp asks
  rw [asks.1.ignored] at sent
  cases sent

end Wire

end Kernix.Proofs
