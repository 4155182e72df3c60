import Kernix.Lib.Runs
import Kernix.Proofs.ArpTable
import Kernix.Proofs.PacketBounds

/-! Machines with this kernel on one wire. A frame that has been sent may reach any of them,
once, several times, late or not at all. Where machines of other makes are never answered,
these understand each other. -/

namespace Kernix.Proofs
open ByteMemory Transition

section Frames
variable {config : NetworkConfig} {memory packet : Memory} {destMac : Mac} {ethertype len : Nat} {frame : List UInt8}

/-- The bytes of a frame whose data stand behind the room for its header. -/
def framed (config : NetworkConfig) (memory : Memory) (destMac : Mac) (ethertype : Nat) : Memory :=
  store (putMac (putMac memory 0 destMac) ethSrcMac config.mac) ethType 2 ethertype

theorem putMac_inside (memory : Memory) (address : Nat) (mac : Mac) (i : Fin 6) :
    putMac memory address mac (address + i.val) = mac i := by
  unfold putMac
  rw [copy_inside _ _ _ i.isLt, dif_pos i.isLt]

theorem macAt_putMac (memory : Memory) (address : Nat) (mac : Mac) : macAt (putMac memory address mac) address = mac := by
  funext i
  exact putMac_inside memory address mac i

theorem putMac_agree (memory : Memory) {address start length : Nat} (mac : Mac)
    (apart : start + length ≤ address ∨ address + 6 ≤ start) : Agree (putMac memory address mac) memory start length :=
  (copy_confined memory address 6 _).agree apart

theorem framed_data (config : NetworkConfig) (memory : Memory) (destMac : Mac) (ethertype : Nat) {start count : Nat}
    (behind : 14 ≤ start) : Agree (framed config memory destMac ethertype) memory start count :=
  have source : ethSrcMac + 6 ≤ start := Nat.le_trans (by decide) behind
  have dest : 0 + 6 ≤ start := Nat.le_trans (by decide) behind
  ((store_agree _ (.inr behind)).trans (putMac_agree _ _ (.inr source))).trans (putMac_agree _ _ (.inr dest))

theorem framed_type (fits : ethertype < 2 ^ 16) : load (framed config memory destMac ethertype) ethType 2 = ethertype :=
  load_store_fits _ fits

theorem framed_dest (config : NetworkConfig) (memory : Memory) (destMac : Mac) (ethertype : Nat) :
    macAt (framed config memory destMac ethertype) 0 = destMac := by
  have source : Agree (putMac (putMac memory 0 destMac) ethSrcMac config.mac) (putMac memory 0 destMac) 0 6 :=
    putMac_agree _ _ (.inl (by decide))
  have type : Agree (framed config memory destMac ethertype)
      (putMac (putMac memory 0 destMac) ethSrcMac config.mac) 0 6 := store_agree _ (.inl (by decide))
  exact (macAt_agree (type.trans source)).trans (macAt_putMac memory 0 destMac)

theorem framed_source (config : NetworkConfig) (memory : Memory) (destMac : Mac) (ethertype : Nat) :
    macAt (framed config memory destMac ethertype) ethSrcMac = config.mac := by
  have type : Agree (framed config memory destMac ethertype)
      (putMac (putMac memory 0 destMac) ethSrcMac config.mac) ethSrcMac 6 := store_agree _ (.inl (by decide))
  exact (macAt_agree type).trans (macAt_putMac _ ethSrcMac config.mac)

theorem ofFn_macAt (memory : Memory) (address : Nat) :
    List.ofFn (macAt memory address) = (List.range 6).map fun i => memory (address + i) := by
  apply List.ext_getElem
  · simp
  · intro i left right
    rw [List.getElem_ofFn, List.getElem_map, List.getElem_range]
    rfl

/-- The frame is its header and the data. -/
theorem networkSendPacket_eq (config : NetworkConfig) (memory : Memory) (len : Nat) (destMac : Mac) (ethertype : Nat) :
    networkSendPacket config memory ethernetHeaderSize len destMac ethertype =
      (List.range (ethernetHeaderSize + len)).map (framed config memory destMac ethertype) := by
  have whole : ((len : Int) + ethernetHeaderSize).toNat = ethernetHeaderSize + len := by omega
  have dest := (ofFn_macAt (framed config memory destMac ethertype) 0).symm
  have source := (ofFn_macAt (framed config memory destMac ethertype) ethSrcMac).symm
  rw [framed_dest] at dest
  rw [framed_source] at source
  have type : (List.range 2).map (fun i => framed config memory destMac ethertype (ethType + i)) =
      [UInt8.ofNat ethertype, UInt8.ofNat (ethertype / 256)] := by
    simp [List.range_succ, framed, store]
  have header : (List.range ethernetHeaderSize).map (framed config memory destMac ethertype) =
      List.ofFn destMac ++ List.ofFn config.mac ++ [UInt8.ofNat ethertype, UInt8.ofNat (ethertype / 256)] := by
    rw [← dest, ← source, ← type, (by decide : List.range ethernetHeaderSize =
      (List.range 6).map (0 + ·) ++ (List.range 6).map (ethSrcMac + ·) ++ (List.range 2).map (ethType + ·)),
      List.map_append, List.map_append, List.map_map, List.map_map, List.map_map]
    rfl
  have data : (List.range len).map (fun i => memory (ethernetHeaderSize + i)) =
      (List.range len).map fun i => framed config memory destMac ethertype (ethernetHeaderSize + i) := by
    apply List.map_congr_left
    intro i member
    have inside := List.mem_range.mp member
    exact ((framed_data config memory destMac ethertype (Nat.le_refl 14)) (ethernetHeaderSize + i) (Nat.le_add_right ..)
      (Nat.add_lt_add_left inside _)).symm
  unfold networkSendPacket
  dsimp only
  rw [Int.toNat_natCast, whole, ← header, data, List.range_add, List.map_append, List.map_map]
  apply List.take_of_length_le
  simp

theorem networkSendPacket_length (config : NetworkConfig) (memory : Memory) (len : Nat) (destMac : Mac)
    (ethertype : Nat) :
    (networkSendPacket config memory ethernetHeaderSize len destMac ethertype).length = ethernetHeaderSize + len := by
  rw [networkSendPacket_eq, List.length_map, List.length_range]

/-- A frame that is received is what was sent, with whatever there was in the buffer behind it. -/
theorem networkSendPacket_received (config : NetworkConfig) (memory : Memory) (len : Nat) (destMac : Mac)
    (ethertype : Nat) (behind : Nat → UInt8) :
    Agree (extended (networkSendPacket config memory ethernetHeaderSize len destMac ethertype) behind)
      (framed config memory destMac ethertype) 0 (ethernetHeaderSize + len) := by
  intro position _ inside
  rw [Nat.zero_add] at inside
  rw [extended, networkSendPacket_eq, List.getElem?_map, List.getElem?_range inside]
  rfl

end Frames

section Messages
variable {config : NetworkConfig} {memory packet : Memory} {oper tpa len : Nat} {destMac : Mac}

/-- What an ARP message of a machine says. -/
structure Tells (config : NetworkConfig) (memory : Memory) (oper tpa : Nat) : Prop where
  oper : load memory arpOper 2 = oper
  spa : load memory arpSpa 4 = config.ip
  sha : macAt memory arpSha = config.mac
  tpa : load memory arpTpa 4 = tpa

theorem Tells.agree {second : Memory} (tells : Tells config memory oper tpa) (same : Agree second memory 14 28) :
    Tells config second oper tpa where
  oper := (load_agree (same.mono (by decide) (by decide))).trans tells.oper
  spa := (load_agree (same.mono (by decide) (by decide))).trans tells.spa
  sha := (macAt_agree (same.mono (by decide) (by decide))).trans tells.sha
  tpa := (load_agree (same.mono (by decide) (by decide))).trans tells.tpa

/-- The type of a frame that is received. -/
theorem received_type {ethertype : Nat} (fits : ethertype < 2 ^ 16) (behind : Nat → UInt8) :
    load (extended (networkSendPacket config memory ethernetHeaderSize len destMac ethertype) behind) ethType 2 = ethertype := by
  have same := networkSendPacket_received config memory len destMac ethertype behind
  exact (load_agree (same.mono (Nat.zero_le _) (by unfold ethType ethernetHeaderSize; omega))).trans (framed_type fits)

/-- An ARP message says the same to the machine that gets it. -/
theorem Tells.received (tells : Tells config memory oper tpa) (behind : Nat → UInt8) :
    Tells config
      (extended (networkSendPacket config memory ethernetHeaderSize arpHeaderSize destMac 0x0806) behind) oper tpa := by
  have same := networkSendPacket_received config memory arpHeaderSize destMac 0x0806 behind
  have data : Agree (framed config memory destMac 0x0806) memory 14 28 :=
    framed_data config memory destMac 0x0806 (Nat.le_refl 14)
  exact tells.agree ((same.mono (by decide) (by decide)).trans data)

theorem arpRequest_tells (valid : config.ip < 2 ^ 32) (targetIp : Nat) :
    ∃ memory, arpRequest config targetIp =
        networkSendPacket config memory ethernetHeaderSize arpHeaderSize broadcastMac 0x0806 ∧
      Tells config memory 0x0100 (targetIp % 256 ^ 4) := by
  refine ⟨_, rfl, ?_, ?_, ?_, load_store _ _ _ _⟩
  · rw [load_store_apart _ (.inl (by decide)), load_agree (putMac_agree _ _ (.inl (by decide))),
      load_store_apart _ (.inl (by decide)), load_agree (putMac_agree _ _ (.inl (by decide)))]
    exact load_store_fits _ (by decide)
  · rw [load_store_apart _ (.inl (by decide)), load_agree (putMac_agree _ _ (.inl (by decide)))]
    exact load_store_fits _ valid
  · rw [macAt_agree (store_agree _ (.inl (by decide))), macAt_agree (putMac_agree _ _ (.inl (by decide))),
      macAt_agree (store_agree _ (.inl (by decide)))]
    exact macAt_putMac _ _ _

theorem arpAnswer_tells (valid : config.ip < 2 ^ 32) (packet : Memory) :
    Tells config (arpAnswer config packet) 0x0200 (load packet arpSpa 4) := by
  unfold arpAnswer
  refine ⟨?_, load_store_fits _ valid, ?_, ?_⟩
  · rw [load_store_apart _ (.inl (by decide)), load_agree (putMac_agree _ _ (.inl (by decide))),
      load_store_apart _ (.inl (by decide)), load_agree (putMac_agree _ _ (.inl (by decide)))]
    exact load_store_fits _ (by decide)
  · rw [macAt_agree (store_agree _ (.inl (by decide)))]
    exact macAt_putMac _ _ _
  · rw [load_store_apart _ (.inr (by decide)), load_agree (putMac_agree _ _ (.inr (by decide)))]
    rw [load_store_fits _ (load_lt ..), load_agree (putMac_agree _ _ (.inl (by decide))),
      load_store_apart _ (.inr (by decide))]

/-- What a machine sends for a packet is an answer of it, or a message that is none of ARP. -/
theorem handlePacket_sent {len : Int} {frame : List UInt8}
    (member : frame ∈ (networkHandlePacket config packet len).sent) :
    (∃ destMac, frame = networkSendPacket config (arpAnswer config packet) ethernetHeaderSize arpHeaderSize destMac 0x0806) ∨
      ∃ memory destMac, frame =
        networkSendPacket config memory ethernetHeaderSize (len - ethernetHeaderSize) destMac 0x0800 := by
  unfold networkHandlePacket at member
  dsimp only at member
  split at member
  · unfold handleArp at member
    dsimp only at member
    split at member
    · split at member
      · exact .inl ⟨_, List.mem_singleton.mp member⟩
      · cases member
    · split at member <;> cases member
  · split at member
    · unfold handleIpv4 at member
      dsimp only at member
      split at member
      · split at member
        · exact .inr ⟨_, _, List.mem_singleton.mp member⟩
        · cases member
      · cases member
    · cases member

/-- What a machine answers when it is asked. -/
def toldAddress (config : NetworkConfig) : ArpReply := (config.ip, config.mac)

theorem Tells.reply (tells : Tells config packet 0x0200 tpa) (type : load packet ethType 2 = 0x0806) :
    replyOf packet = some (toldAddress config) := by
  have told : replyOf packet = some (load packet arpSpa 4, macAt packet arpSha) := if_pos ⟨type, tells.oper⟩
  rw [told, tells.spa, tells.sha]
  rfl

/-- A machine that is asked for its address sends it. -/
theorem Tells.answered {asker : NetworkConfig} (tells : Tells asker packet 0x0100 config.ip)
    (type : load packet ethType 2 = 0x0806) (len : Int) :
    (networkHandlePacket config packet len).sent = [networkSendPacket config (arpAnswer config packet) ethernetHeaderSize
      arpHeaderSize (macAt (arpAnswer config packet) ethSrcMac) 0x0806] := by
  obtain ⟨low, high⟩ := (load_word_iff 6 8).mp type
  obtain ⟨low', high'⟩ := (load_word_iff 0 1).mp tells.oper
  rw [handlePacket_arp low high, handleArp_request low' high', if_pos tells.tpa]

theorem handlePacket_address (config : NetworkConfig) (packet : Memory) (len : Int) :
    toldAddress (networkHandlePacket config packet len).config = toldAddress config := by
  rw [handlePacket_config]
  cases replyOf packet <;> rfl

theorem latestReply_mem {replies : List ArpReply} {ip : Nat} {mac : Mac} (latest : latestReply replies ip = some mac) :
    (ip, mac) ∈ replies := by
  obtain ⟨reply, found, rfl⟩ := Option.map_eq_some_iff.mp latest
  have named : reply.1 = ip := of_decide_eq_true
    (List.find?_some (p := fun reply : ArpReply => decide (reply.1 = ip)) found)
  have member := List.mem_reverse.mp (List.mem_of_find?_eq_some found)
  rwa [← named]

end Messages

section Lan
universe u
variable {ι : Type u}

/-- The machines on a wire, and the frames that were ever sent on it. -/
structure Lan (ι : Type u) where
  hosts : ι → NetworkConfig
  wire : List (List UInt8)

/-- Somebody types a ping at a machine, or a frame gets to one. -/
inductive LanEvent (ι : Type u) where
  | pings (host : ι) (s : Option (List UInt8))
  | gets (host : ι) (frame : List UInt8) (behind : Nat → UInt8)

inductive LanMoves [DecidableEq ι] : Lan ι → LanEvent ι → Lan ι → Prop where
  | pings {lan : Lan ι} {host : ι} {s : Option (List UInt8)} {frames : List (List UInt8)}
      (returns : cmdPing (lan.hosts host) s = .ok frames) :
      LanMoves lan (.pings host s) { lan with wire := lan.wire ++ frames }
  | gets {lan : Lan ι} {host : ι} {frame : List UInt8} {behind : Nat → UInt8} {effects : PacketEffects}
      (sent : frame ∈ lan.wire)
      (handles : networkHandlePacket (lan.hosts host) (extended frame behind) frame.length = effects) :
      LanMoves lan (.gets host frame behind) ⟨Function.update lan.hosts host effects.config, lan.wire ++ effects.sent⟩

/-- No machine knows another, and nothing was sent. -/
structure LanStarts (lan : Lan ι) : Prop where
  silent : lan.wire = []
  small : ∀ host, (lan.hosts host).ip < 2 ^ 32
  unknown : ∀ host slot, ((lan.hosts host).arpTable slot).valid = false

/-- An ARP message that comes out of the frame is about a machine of those. -/
structure FrameTells (told : ι → ArpReply) (frame : List UInt8) : Prop where
  whole : 42 ≤ frame.length
  sender : ∀ behind, load (extended frame behind) ethType 2 = 0x0806 →
    (load (extended frame behind) arpSpa 4, macAt (extended frame behind) arpSha) ∈ Set.range told

/-- The table was made by replies that are about those machines. -/
def TableTells (told : ι → ArpReply) (table : Fin arpTableSize → ArpEntry) : Prop :=
  ∃ replies, TableHeld table replies ∧ ∀ reply ∈ replies, reply ∈ Set.range told

structure LanHeld (told : ι → ArpReply) (lan : Lan ι) : Prop where
  same : ∀ host, toldAddress (lan.hosts host) = told host
  small : ∀ host, (told host).1 < 2 ^ 32
  frames : ∀ frame ∈ lan.wire, FrameTells told frame
  tables : ∀ host, TableTells told (lan.hosts host).arpTable

section Steps
variable {told : ι → ArpReply} {config : NetworkConfig} {memory : Memory} {oper tpa len : Nat} {destMac : Mac}
  {frame : List UInt8} {frames : List (List UInt8)}

theorem Tells.sends (tells : Tells config memory oper tpa) (member : toldAddress config ∈ Set.range told)
    (destMac : Mac) :
    FrameTells told (networkSendPacket config memory ethernetHeaderSize arpHeaderSize destMac 0x0806) where
  whole := Nat.le_of_eq (networkSendPacket_length config memory arpHeaderSize destMac 0x0806).symm
  sender behind _ := by
    have received : Tells config
        (extended (networkSendPacket config memory ethernetHeaderSize arpHeaderSize destMac 0x0806) behind) oper tpa :=
      tells.received behind
    rw [received.spa, received.sha]
    exact member

theorem other_frame (long : 28 ≤ len) (told : ι → ArpReply) (config : NetworkConfig) (memory : Memory) (destMac : Mac) :
    FrameTells told (networkSendPacket config memory ethernetHeaderSize len destMac 0x0800) where
  whole := by
    rw [networkSendPacket_length]
    exact Nat.add_le_add_left long 14
  sender behind type := by
    rw [received_type (by decide)] at type
    cases type

theorem cmdPing_parsed {char : UInt8} {rest : List UInt8} {targetIp : Nat} (config : NetworkConfig)
    (parsed : parseIp (char :: rest) = .ok targetIp) : cmdPing config (some (char :: rest)) =
      if targetIp = 0 then .ok [] else match arpLookup config targetIp with
        | some destMac => .ok [echoRequest config targetIp destMac]
        | none => .ok [arpRequest config targetIp, echoRequest config targetIp broadcastMac] := by
  unfold cmdPing
  dsimp only
  rw [parsed]
  rfl

theorem frames_pinged {s : Option (List UInt8)} (valid : config.ip < 2 ^ 32)
    (member : toldAddress config ∈ Set.range told)
    (returns : cmdPing config s = .ok frames) : ∀ frame ∈ frames, FrameTells told frame := by
  have echo (targetIp : Nat) (destMac : Mac) : FrameTells told (echoRequest config targetIp destMac) :=
    other_frame (by decide) told config _ destMac
  have asks (targetIp : Nat) : FrameTells told (arpRequest config targetIp) := by
    obtain ⟨memory, request, tells⟩ := arpRequest_tells valid targetIp
    rw [request]
    exact tells.sends member broadcastMac
  match s, returns with
  | none, returns => cases returns; exact fun _ absent => absurd absent List.not_mem_nil
  | some [], returns => cases returns; exact fun _ absent => absurd absent List.not_mem_nil
  | some (char :: rest), returns =>
    cases parsed : parseIp (char :: rest) with
    | error stop =>
      unfold cmdPing at returns
      dsimp only at returns
      rw [parsed] at returns
      cases returns
    | ok targetIp =>
      rw [cmdPing_parsed config parsed] at returns
      split at returns
      · cases returns
        exact fun _ absent => absurd absent List.not_mem_nil
      · split at returns
        · cases returns
          exact fun frame member => List.mem_singleton.mp member ▸ echo ..
        · cases returns
          intro frame member
          rcases List.mem_pair.mp member with rfl | rfl
          · exact asks targetIp
          · exact echo ..

theorem frames_answered {packet : Memory} (valid : config.ip < 2 ^ 32) (member : toldAddress config ∈ Set.range told)
    (whole : 42 ≤ len) : ∀ frame ∈ (networkHandlePacket config packet len).sent, FrameTells told frame := by
  intro frame sent
  rcases handlePacket_sent sent with ⟨destMac, rfl⟩ | ⟨memory, destMac, rfl⟩
  · exact (arpAnswer_tells valid packet).sends member destMac
  · have behind : (len : Int) - ethernetHeaderSize = (len - 14 : Nat) := by
      unfold ethernetHeaderSize
      omega
    rw [behind]
    exact other_frame (by omega) told config memory destMac

theorem table_handled (tables : TableTells told config.arpTable) (frames : FrameTells told frame) (behind : Nat → UInt8)
    (len : Int) : TableTells told (networkHandlePacket config (extended frame behind) len).config.arpTable := by
  obtain ⟨replies, held, about⟩ := tables
  refine ⟨_, held.handled (extended frame behind) len, ?_⟩
  intro reply member
  rcases List.mem_append.mp member with old | new
  · exact about reply old
  · have told : replyOf (extended frame behind) = some reply := Option.mem_toList.mp new
    unfold replyOf at told
    split at told
    next answer =>
      rw [← Option.some.inj told]
      exact frames.sender behind answer.1
    next => cases told

theorem held_starts {lan : Lan ι} (starts : LanStarts lan) : LanHeld (fun host => toldAddress (lan.hosts host)) lan where
  same _ := rfl
  small := starts.small
  frames _ member := by
    rw [starts.silent] at member
    cases member
  tables host := ⟨[], ⟨⟨by decide, fun _ inside => absurd inside (Nat.not_lt_zero _)⟩,
    fun slot _ => starts.unknown host slot, List.nodup_nil, fun _ member => absurd member List.not_mem_nil⟩,
    fun _ member => absurd member List.not_mem_nil⟩

variable {lan after : Lan ι} {event : LanEvent ι} {asker owner : ι}

theorem LanHeld.host (held : LanHeld told lan) (host : ι) :
    (lan.hosts host).ip < 2 ^ 32 ∧ toldAddress (lan.hosts host) ∈ Set.range told := by
  have same := held.same host
  refine ⟨?_, host, same.symm⟩
  have small := held.small host
  rwa [← same] at small

variable [DecidableEq ι]

theorem LanHeld.moves (held : LanHeld told lan) (moves : LanMoves lan event after) : LanHeld told after := by
  cases moves with
  | @pings host s frames returns =>
    obtain ⟨valid, member⟩ := held.host host
    refine ⟨held.same, held.small, fun frame sent => ?_, held.tables⟩
    rcases List.mem_append.mp sent with old | new
    · exact held.frames frame old
    · exact frames_pinged valid member returns frame new
  | @gets host frame behind effects sent handles =>
    obtain ⟨valid, member⟩ := held.host host
    have tells := held.frames frame sent
    subst handles
    refine ⟨?_, held.small, fun further sent => ?_, ?_⟩
    · exact (Function.forall_update_iff lan.hosts fun host config => toldAddress config = told host).mpr
        ⟨(handlePacket_address ..).trans (held.same host), fun other _ => held.same other⟩
    · rcases List.mem_append.mp sent with old | new
      · exact held.frames further old
      · exact frames_answered valid member tells.whole further new
    · exact (Function.forall_update_iff lan.hosts fun _ config => TableTells told config.arpTable).mpr
        ⟨table_handled (held.tables host) tells behind frame.length, fun other _ => held.tables other⟩

end Steps

/-- The states of the wire that come after this one. -/
def LanLater [DecidableEq ι] (lan later : Lan ι) : Prop := Reachable (· = lan) LanMoves later

/-- The machines know nothing wrong about each other and forget nobody, and the one who asks can learn. -/
structure LanRight [DecidableEq ι] (lan : Lan ι) : Prop where
  truthful : ∀ host ip mac, arpLookup (lan.hosts host) ip = some mac → ∃ owner, toldAddress (lan.hosts owner) = (ip, mac)
  same : ∀ later, LanLater lan later → ∀ host, toldAddress (later.hosts host) = toldAddress (lan.hosts host)
  kept : ∀ later, LanLater lan later → ∀ host ip, arpLookup (lan.hosts host) ip ≠ none →
    arpLookup (later.hosts host) ip ≠ none
  answered : ∀ asker owner behind len, ∃ reply,
    (networkHandlePacket (lan.hosts owner)
      (extended (arpRequest (lan.hosts asker) (lan.hosts owner).ip) behind) len).sent = [reply] ∧
    ∀ later, LanLater lan later → ∀ behind len,
      (arpLookup (later.hosts asker) (lan.hosts owner).ip ≠ none ∨
        ∃ slot, ((later.hosts asker).arpTable slot).valid = false) →
      arpLookup (networkHandlePacket (later.hosts asker) (extended reply behind) len).config (lan.hosts owner).ip =
        some (lan.hosts owner).mac

section Runs
variable {told : ι → ArpReply} {lan later : Lan ι} {config : NetworkConfig} {replies : List ArpReply} {reply : ArpReply}
  {packet : Memory} {ip : Nat}

theorem held_known (held : TableHeld config.arpTable replies) (ip : Nat) :
    arpLookup config ip ≠ none ↔ ip ∈ firstSenders replies := by
  rw [held.lookup]
  constructor
  · intro some_
    by_contra unknown
    exact some_ (if_neg unknown)
  · intro known
    rw [if_pos known]
    exact held.known ip known

/-- Who is known stays known when a packet is handled. -/
theorem handled_known (held : TableHeld config.arpTable replies) (packet : Memory) (len : Int)
    (known : arpLookup config ip ≠ none) : arpLookup (networkHandlePacket config packet len).config ip ≠ none := by
  have before := (held_known held ip).mp known
  apply (held_known (held.handled packet len) ip).mpr
  cases replyOf packet with
  | none => rwa [Option.toList_none, List.append_nil]
  | some reply =>
    rw [Option.toList_some, firstSenders_concat]
    split
    · exact before
    · exact List.mem_append_left _ before

/-- A table with a free slot has not the most entries. -/
theorem held_room (held : TableHeld config.arpTable replies) (free : ∃ slot, (config.arpTable slot).valid = false) :
    (firstSenders replies).length ≠ arpTableSize := by
  intro full
  obtain ⟨slot, free⟩ := free
  have inside : slot.val < (firstSenders replies).length := by
    rw [full]
    exact slot.isLt
  have entry : config.arpTable slot = entryFor replies (firstSenders replies)[slot.val] := held.slot inside
  rw [entry] at free
  cases free

/-- A reply is believed by a machine that knows its sender, or has room for it. -/
theorem reply_believed (held : TableHeld config.arpTable replies) (told : replyOf packet = some reply)
    (place : arpLookup config reply.1 ≠ none ∨ ∃ slot, (config.arpTable slot).valid = false) (len : Int) :
    arpLookup (networkHandlePacket config packet len).config reply.1 = some reply.2 := by
  have after := held.handled packet len
  rw [told, Option.toList_some] at after
  have known : reply.1 ∈ firstSenders (replies ++ [reply]) := by
    rw [firstSenders_concat]
    split
    next old =>
      rcases place with known | free
      · exact (held_known held reply.1).mp known
      · exact old.resolve_right (held_room held free)
    next => exact List.mem_append_right _ (List.mem_singleton.mpr rfl)
  rw [after.lookup, if_pos known, latestReply_concat, if_pos rfl]

theorem LanHeld.truthful (held : LanHeld told lan) {host : ι} {mac : Mac}
    (known : arpLookup (lan.hosts host) ip = some mac) :
    ∃ owner, toldAddress (lan.hosts owner) = (ip, mac) := by
  obtain ⟨replies, table, about⟩ := held.tables host
  rw [table.lookup] at known
  split at known
  · obtain ⟨owner, same⟩ := about _ (latestReply_mem known)
    exact ⟨owner, (held.same owner).trans same⟩
  · cases known

variable [DecidableEq ι]

theorem LanHeld.lasts (held : LanHeld told lan) (reached : LanLater lan later) : LanHeld told later := by
  apply reached.invariant (LanHeld told)
  · rintro _ rfl
    exact held
  · exact fun _ _ _ kept moves => kept.moves moves

theorem LanHeld.kept (held : LanHeld told lan) (reached : LanLater lan later) {host : ι}
    (known : arpLookup (lan.hosts host) ip ≠ none) : arpLookup (later.hosts host) ip ≠ none := by
  have both : LanHeld told later ∧ arpLookup (later.hosts host) ip ≠ none := by
    apply reached.invariant fun lan => LanHeld told lan ∧ arpLookup (lan.hosts host) ip ≠ none
    · rintro _ rfl
      exact ⟨held, known⟩
    · rintro before event after ⟨kept, known⟩ moves
      refine ⟨kept.moves moves, ?_⟩
      cases moves with
      | pings => exact known
      | @gets receiver frame behind effects sent handles =>
        subst handles
        obtain ⟨replies, table, -⟩ := kept.tables receiver
        dsimp only
        by_cases here : host = receiver
        · subst here
          rw [Function.update_self]
          exact handled_known table _ _ known
        · rwa [Function.update_of_ne here]
  exact both.2

/-- The owner of the address answers the request, and the answer is believed whenever it comes. -/
theorem LanHeld.answered (held : LanHeld told lan) (asker owner : ι) (behind : Nat → UInt8) (len : Int) :
    ∃ reply, (networkHandlePacket (lan.hosts owner)
        (extended (arpRequest (lan.hosts asker) (lan.hosts owner).ip) behind) len).sent = [reply] ∧
      ∀ later, LanLater lan later → ∀ behind len,
        (arpLookup (later.hosts asker) (lan.hosts owner).ip ≠ none ∨
          ∃ slot, ((later.hosts asker).arpTable slot).valid = false) →
        arpLookup (networkHandlePacket (later.hosts asker) (extended reply behind) len).config (lan.hosts owner).ip =
          some (lan.hosts owner).mac := by
  obtain ⟨memory, request, tells⟩ := arpRequest_tells (held.host asker).1 (lan.hosts owner).ip
  have whole : (lan.hosts owner).ip % 256 ^ 4 = (lan.hosts owner).ip := Nat.mod_eq_of_lt (held.host owner).1
  rw [whole] at tells
  rw [request]
  refine ⟨_, (tells.received behind).answered (received_type (by decide) behind) len,
    fun later reached behind' len' place => ?_⟩
  obtain ⟨replies, table, -⟩ := (held.lasts reached).tables asker
  exact reply_believed table (((arpAnswer_tells (held.host owner).1 _).received behind').reply
    (received_type (by decide) behind')) place len'

/-- Whatever is lost, late, repeated or out of order on the wire. -/
theorem lan_right (reached : Reachable LanStarts LanMoves lan) : LanRight lan := by
  have held : ∃ told, LanHeld told lan := by
    apply reached.invariant fun lan => ∃ told, LanHeld told lan
    · exact fun _ starts => ⟨_, held_starts starts⟩
    · rintro _ _ _ ⟨told, held⟩ moves
      exact ⟨told, held.moves moves⟩
  obtain ⟨told, held⟩ := held
  exact ⟨fun host ip mac => held.truthful, fun later reached host =>
    ((held.lasts reached).same host).trans (held.same host).symm, fun later reached host ip => held.kept reached,
    held.answered⟩

/-- Two machines, with the addresses 10.0.0.1 and 10.0.0.2. -/
private def twoMachines : Lan Bool :=
  ⟨fun second => ⟨fun _ => if second then 2 else 1, if second then 0x0A000002 else 0x0A000001,
    fun _ => ⟨0, fun _ => 0, false⟩⟩, []⟩

/-- The first one pings the second, which answers the request for its address. -/
theorem lan_right_twoMachines :
    ∃ lan, LanRight lan ∧ (arpLookup (lan.hosts false) 0x0A000002).isSome = true := by
  have start : Reachable LanStarts LanMoves twoMachines :=
    .initial ⟨rfl, fun second => by cases second <;> decide, fun _ _ => rfl⟩
  have parsed : parseIp [0x31, 0x30, 0x2E, 0x30, 0x2E, 0x30, 0x2E, 0x32] = .ok 0x0A000002 := by decide
  have unknown : arpLookup (twoMachines.hosts false) 0x0A000002 = none := rfl
  have request := cmdPing_parsed (twoMachines.hosts false) parsed
  rw [if_neg (by decide), unknown] at request
  have asked := start.step (@LanMoves.pings Bool _ _ _ _ _ request)
  have answered := asked.step (@LanMoves.gets Bool _ _ true _ (fun _ => 0) _ (List.mem_cons_self ..) rfl)
  have learned := answered.step (@LanMoves.gets Bool _ _ false _ (fun _ => 0) _ (List.getLast_mem (by decide)) rfl)
  exact ⟨_, lan_right learned, by decide⟩

end Runs
end Lan

end Kernix.Proofs
