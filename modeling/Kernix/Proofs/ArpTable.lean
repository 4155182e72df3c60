import Kernix.Lib.SlotList
import Kernix.Proofs.PacketReads

/-! The ARP table over the replies of a run. Its first entries are the valid ones, one for
each sender. -/

namespace Kernix.Proofs
open ByteMemory SlotList

/-- What an ARP reply tells: an address, and the hardware that has it. -/
abbrev ArpReply := Nat × Mac

/-- The replies among the packets. -/
def replyOf (packet : Memory) : Option ArpReply :=
  if load packet ethType 2 = 0x0806 ∧ load packet arpOper 2 = 0x0200 then some (load packet arpSpa 4, macAt packet arpSha)
  else none

/-- The configuration behind a sequence of packets, each with its length. -/
def handleAll (config : NetworkConfig) (packets : List (Memory × Int)) : NetworkConfig :=
  packets.foldl (fun config packet => (networkHandlePacket config packet.1 packet.2).config) config

def repliesOf (packets : List (Memory × Int)) : List ArpReply := packets.filterMap fun packet => replyOf packet.1

/-- The first sixteen different senders. -/
def firstSenders (replies : List ArpReply) : List Nat :=
  replies.foldl (fun seen reply => if reply.1 ∈ seen ∨ seen.length = arpTableSize then seen else seen ++ [reply.1]) []

/-- What the latest reply from an address says. -/
def latestReply (replies : List ArpReply) (ip : Nat) : Option Mac :=
  (replies.reverse.find? fun reply => reply.1 = ip).map Prod.snd

/-- The table tells what the latest replies of the first sixteen senders say, and nothing else. -/
structure ArpTableRight (config : NetworkConfig) (replies : List ArpReply) : Prop where
  once : ∀ i j, (config.arpTable i).valid = true → (config.arpTable j).valid = true →
    (config.arpTable i).ip = (config.arpTable j).ip → i = j
  lookup : ∀ ip, arpLookup config ip = if ip ∈ firstSenders replies then latestReply replies ip else none
  further : ∀ packet len reply, replyOf packet = some reply → (firstSenders replies).length = arpTableSize →
    reply.1 ∉ firstSenders replies → (networkHandlePacket config packet len).config = config

/-- The entry of a sender. -/
def entryFor (replies : List ArpReply) (ip : Nat) : ArpEntry := ⟨ip, (latestReply replies ip).getD fun _ => 0, true⟩

/-- The entries of the senders stand at the front of the table. -/
structure TableHeld (table : Fin arpTableSize → ArpEntry) (replies : List ArpReply) : Prop where
  holds : SlotList.Holds table ((firstSenders replies).map (entryFor replies))
  free : ∀ slot : Fin arpTableSize, (firstSenders replies).length ≤ slot.val → (table slot).valid = false
  once : (firstSenders replies).Nodup
  known : ∀ ip ∈ firstSenders replies, latestReply replies ip ≠ none

variable {config : NetworkConfig} {packet : Memory} {table : Fin arpTableSize → ArpEntry} {replies : List ArpReply}
  {reply : ArpReply} {ip : Nat}

theorem firstSenders_concat (replies : List ArpReply) (reply : ArpReply) : firstSenders (replies ++ [reply]) =
    if reply.1 ∈ firstSenders replies ∨ (firstSenders replies).length = arpTableSize then firstSenders replies
    else firstSenders replies ++ [reply.1] := by
  rw [firstSenders, List.foldl_append]
  rfl

theorem latestReply_concat (replies : List ArpReply) (reply : ArpReply) (ip : Nat) : latestReply (replies ++ [reply]) ip =
    if reply.1 = ip then some reply.2 else latestReply replies ip := by
  rw [latestReply, List.reverse_append, List.reverse_singleton, List.singleton_append, List.find?_cons]
  by_cases same : reply.1 = ip
  · rw [if_pos same, decide_eq_true same]
    rfl
  · rw [if_neg same, decide_eq_false same]
    rfl

theorem entryFor_concat (other : ip ≠ reply.1) : entryFor (replies ++ [reply]) ip = entryFor replies ip := by
  rw [entryFor, latestReply_concat, if_neg (Ne.symm other), entryFor]

theorem entryFor_latest (replies : List ArpReply) (reply : ArpReply) :
    entryFor (replies ++ [reply]) reply.1 = ⟨reply.1, reply.2, true⟩ := by
  rw [entryFor, latestReply_concat, if_pos rfl]
  rfl

/-- Only replies change the configuration. -/
theorem handlePacket_config (config : NetworkConfig) (packet : Memory) (len : Int) :
    (networkHandlePacket config packet len).config =
      match replyOf packet with
      | none => config
      | some reply => ⟨config.mac, config.ip, arpRecord config.arpTable reply.1 reply.2
        (List.finRange arpTableSize)⟩ := by
  by_cases answer : load packet ethType 2 = 0x0806 ∧ load packet arpOper 2 = 0x0200
  · have told : replyOf packet = some (load packet arpSpa 4, macAt packet arpSha) := if_pos answer
    rw [told]
    obtain ⟨arp, reply⟩ := answer
    unfold networkHandlePacket handleArp
    dsimp only
    rw [if_pos arp, if_neg (by omega), if_pos reply]
  · have silent : replyOf packet = none := if_neg answer
    rw [silent]
    unfold networkHandlePacket
    dsimp only
    split
    next arp =>
      unfold handleArp
      dsimp only
      rw [if_neg fun reply => answer ⟨arp, reply⟩]
      split
      · split <;> rfl
      · rfl
    next =>
      split
      · unfold handleIpv4
        dsimp only
        split
        · split <;> rfl
        · rfl
      · rfl

/-- The loop writes the first entry that is free or has the address. -/
theorem arpRecord_eq (table : Fin arpTableSize → ArpEntry) (spa : Nat) (sha : Mac) (slots : List (Fin arpTableSize)) :
    arpRecord table spa sha slots =
      match slots.find? fun i => !(table i).valid || (table i).ip = spa with
      | none => table
      | some i => Function.update table i ⟨spa, sha, true⟩ := by
  induction slots with
  | nil => rfl
  | cons slot slots ih =>
    rw [arpRecord, List.find?_cons]
    split
    next found => rw [found]
    next other =>
      rw [Bool.not_eq_true] at other
      rw [other]
      exact ih

namespace TableHeld

theorem few (held : TableHeld table replies) : (firstSenders replies).length ≤ arpTableSize := by
  have fits := held.holds.fits
  rwa [List.length_map] at fits

theorem slot (held : TableHeld table replies) {index : Nat} (inside : index < (firstSenders replies).length) :
    table ⟨index, Nat.lt_of_lt_of_le inside held.few⟩ = entryFor replies (firstSenders replies)[index] := by
  have inside' : index < ((firstSenders replies).map (entryFor replies)).length := by rwa [List.length_map]
  rw [held.holds.slot index inside', List.getElem_map]

/-- A valid entry is the one of a sender. -/
theorem valid (held : TableHeld table replies) {slot : Fin arpTableSize} (some_ : (table slot).valid = true) :
    ∃ inside : slot.val < (firstSenders replies).length, (table slot).ip = (firstSenders replies)[slot.val] := by
  by_cases inside : slot.val < (firstSenders replies).length
  · refine ⟨inside, ?_⟩
    rw [held.slot inside]
    rfl
  · rw [held.free slot (by omega)] at some_
    cases some_

theorem ips_inj (held : TableHeld table replies) {i j : Fin arpTableSize} (left : (table i).valid = true)
    (right : (table j).valid = true) (same : (table i).ip = (table j).ip) : i = j := by
  obtain ⟨inside, first⟩ := held.valid left
  obtain ⟨inside', second⟩ := held.valid right
  rw [first, second] at same
  exact Fin.ext ((List.Nodup.getElem_inj_iff held.once).mp same)

/-- The entry of a sender that is known, and the other slots. -/
theorem place (held : TableHeld table replies) (known : ip ∈ firstSenders replies) :
    ∃ slot : Fin arpTableSize, ∃ inside : slot.val < (firstSenders replies).length,
      (firstSenders replies)[slot.val] = ip ∧ table slot = entryFor replies ip ∧
        ∀ other : Fin arpTableSize, other.val < slot.val → (table other).valid = true ∧ (table other).ip ≠ ip := by
  obtain ⟨index, inside, rfl⟩ := List.getElem_of_mem known
  refine ⟨⟨index, Nat.lt_of_lt_of_le inside held.few⟩, inside, rfl, held.slot inside, ?_⟩
  intro other earlier
  have inside' : other.val < (firstSenders replies).length := Nat.lt_trans earlier inside
  have entry := held.slot inside'
  constructor
  · rw [entry]
    rfl
  · rw [entry]
    intro same
    exact Nat.ne_of_lt earlier ((List.Nodup.getElem_inj_iff held.once).mp same)

theorem lookup (held : TableHeld config.arpTable replies) (ip : Nat) :
    arpLookup config ip = if ip ∈ firstSenders replies then latestReply replies ip else none := by
  unfold arpLookup
  by_cases known : ip ∈ firstSenders replies
  · obtain ⟨slot, _, _, entry, earlier⟩ := held.place known
    have found : ((config.arpTable slot).valid && decide ((config.arpTable slot).ip = ip)) = true := by
      rw [entry]
      simp [entryFor]
    have first : (List.finRange arpTableSize).find? (fun slot => (config.arpTable slot).valid &&
        decide ((config.arpTable slot).ip = ip)) = some slot := by
      apply FirstIndex.found_iff.mpr ⟨found, fun other before => ?_⟩
      rw [(earlier other before).1, decide_eq_false (earlier other before).2]
      rfl
    obtain ⟨mac, latest⟩ := Option.ne_none_iff_exists'.mp (held.known ip known)
    rw [if_pos known, first, Option.map_some, entry, entryFor, latest]
    rfl
  · rw [if_neg known, List.find?_eq_none.mpr]
    · rfl
    · intro slot _ found
      rw [Bool.and_eq_true, decide_eq_true_eq] at found
      obtain ⟨inside, same⟩ := held.valid found.1
      exact known (found.2.symm.trans same ▸ List.getElem_mem inside)

/-- A further reply of a sender that is known changes its entry. -/
theorem repeats (held : TableHeld table replies) (known : reply.1 ∈ firstSenders replies) :
    TableHeld (arpRecord table reply.1 reply.2 (List.finRange arpTableSize)) (replies ++ [reply]) := by
  obtain ⟨slot, inside, named, entry, earlier⟩ := held.place known
  have senders : firstSenders (replies ++ [reply]) = firstSenders replies := by
    rw [firstSenders_concat, if_pos (.inl known)]
  have found : (!(table slot).valid || decide ((table slot).ip = reply.1)) = true := by
    rw [entry]
    simp [entryFor]
  have written : arpRecord table reply.1 reply.2 (List.finRange arpTableSize) =
      Function.update table slot ⟨reply.1, reply.2, true⟩ := by
    have first : (List.finRange arpTableSize).find? (fun slot => !(table slot).valid ||
        decide ((table slot).ip = reply.1)) = some slot := by
      apply FirstIndex.found_iff.mpr ⟨found, fun other before => ?_⟩
      rw [(earlier other before).1, decide_eq_false (earlier other before).2]
      rfl
    rw [arpRecord_eq, first]
  rw [written]
  have inside' : slot.val < ((firstSenders replies).map (entryFor replies)).length := by rwa [List.length_map]
  refine ⟨?_, ?_, by rw [senders]; exact held.once, ?_⟩
  · have set := held.holds.set inside' ⟨reply.1, reply.2, true⟩
    have items : ((firstSenders replies).map (entryFor replies)).set slot.val ⟨reply.1, reply.2, true⟩ =
        (firstSenders (replies ++ [reply])).map (entryFor (replies ++ [reply])) := by
      rw [senders]
      apply List.ext_getElem (by simp)
      intro index left right
      rw [List.length_map] at right
      rw [List.getElem_set, List.getElem_map, List.getElem_map]
      by_cases here : slot.val = index
      · subst here
        rw [if_pos rfl, named, entryFor_latest]
      · rw [if_neg here, entryFor_concat]
        intro same
        exact here ((List.Nodup.getElem_inj_iff held.once).mp (named.trans same.symm))
    rwa [items] at set
  · intro other behind
    rw [senders] at behind
    rw [Function.update_of_ne, held.free other behind]
    rintro rfl
    omega
  · intro ip member
    rw [latestReply_concat]
    split
    · exact Option.some_ne_none _
    · exact held.known ip (senders ▸ member)

/-- A new sender is put behind the others, for as long as there is room. -/
theorem joins (held : TableHeld table replies) (unknown : reply.1 ∉ firstSenders replies)
    (room : (firstSenders replies).length < arpTableSize) :
    TableHeld (arpRecord table reply.1 reply.2 (List.finRange arpTableSize)) (replies ++ [reply]) := by
  have senders : firstSenders (replies ++ [reply]) = firstSenders replies ++ [reply.1] := by
    rw [firstSenders_concat, if_neg]
    rintro (known | full)
    · exact unknown known
    · omega
  have old (ip : Nat) (member : ip ∈ firstSenders replies) : entryFor (replies ++ [reply]) ip = entryFor replies ip :=
    entryFor_concat fun same => unknown (same ▸ member)
  have free := held.free ⟨_, room⟩ (Nat.le_refl _)
  have written : arpRecord table reply.1 reply.2 (List.finRange arpTableSize) =
      Function.update table ⟨_, room⟩ ⟨reply.1, reply.2, true⟩ := by
    rw [arpRecord_eq, FirstIndex.found_iff.mpr]
    constructor
    · rw [free]
      rfl
    · intro other before
      have entry := held.slot before
      have apart : (firstSenders replies)[other.val] ≠ reply.1 := fun same => unknown (same ▸ List.getElem_mem before)
      have first : table other = entryFor replies (firstSenders replies)[other.val] := entry
      rw [first]
      exact decide_eq_false apart
  rw [written]
  refine ⟨?_, ?_, ?_, ?_⟩
  · have room' : ((firstSenders replies).map (entryFor replies)).length < arpTableSize := by rwa [List.length_map]
    have pushed := held.holds.push room' ⟨reply.1, reply.2, true⟩
    have place : (⟨_, room'⟩ : Fin arpTableSize) = ⟨_, room⟩ := Fin.ext (List.length_map _)
    rw [place] at pushed
    rw [senders, List.map_append, List.map_singleton, entryFor_latest, List.map_congr_left old]
    exact pushed
  · intro other behind
    rw [senders, List.length_append, List.length_singleton] at behind
    have other' : other ≠ ⟨_, room⟩ := fun same => by rw [same] at behind; exact Nat.not_succ_le_self _ behind
    rw [Function.update_of_ne other', held.free other (by omega)]
  · rw [senders]
    exact held.once.append (List.nodup_singleton _) (by simpa using unknown)
  · intro ip member
    rw [senders] at member
    rw [latestReply_concat]
    split
    · exact Option.some_ne_none _
    next other =>
      rcases List.mem_append.mp member with known | new
      · exact held.known ip known
      · exact absurd (List.mem_singleton.mp new).symm other

/-- A reply of a further sender changes nothing. -/
theorem ignores (held : TableHeld table replies) (unknown : reply.1 ∉ firstSenders replies)
    (full : (firstSenders replies).length = arpTableSize) :
    arpRecord table reply.1 reply.2 (List.finRange arpTableSize) = table := by
  rw [arpRecord_eq, List.find?_eq_none.mpr]
  intro slot _ found
  have inside : slot.val < (firstSenders replies).length := by
    rw [full]
    exact slot.isLt
  have entry : table slot = entryFor replies (firstSenders replies)[slot.val] := held.slot inside
  rw [entry] at found
  have same : (firstSenders replies)[slot.val] = reply.1 := of_decide_eq_true found
  exact unknown (same ▸ List.getElem_mem inside)

theorem overflows (held : TableHeld table replies) (unknown : reply.1 ∉ firstSenders replies)
    (full : (firstSenders replies).length = arpTableSize) : TableHeld table (replies ++ [reply]) := by
  have senders : firstSenders (replies ++ [reply]) = firstSenders replies := by
    rw [firstSenders_concat, if_pos (.inr full)]
  have old (ip : Nat) (member : ip ∈ firstSenders replies) : entryFor (replies ++ [reply]) ip = entryFor replies ip :=
    entryFor_concat fun same => unknown (same ▸ member)
  refine ⟨?_, by rw [senders]; exact held.free, by rw [senders]; exact held.once, ?_⟩
  · rw [senders, List.map_congr_left old]
    exact held.holds
  · intro ip member
    rw [senders] at member
    rw [latestReply_concat]
    split
    · exact Option.some_ne_none _
    · exact held.known ip member

end TableHeld

theorem TableHeld.handled (held : TableHeld config.arpTable replies) (packet : Memory) (len : Int) :
    TableHeld (networkHandlePacket config packet len).config.arpTable (replies ++ (replyOf packet).toList) := by
  rw [handlePacket_config]
  cases replyOf packet with
  | none => simpa using held
  | some reply =>
    have few := held.few
    dsimp only
    rw [Option.toList_some]
    by_cases known : reply.1 ∈ firstSenders replies
    · exact held.repeats known
    by_cases room : (firstSenders replies).length < arpTableSize
    · exact held.joins known room
    · rw [held.ignores known (by omega)]
      exact held.overflows known (by omega)

theorem TableHeld.handleAll (held : TableHeld config.arpTable replies) (packets : List (Memory × Int)) :
    TableHeld (Proofs.handleAll config packets).arpTable (replies ++ repliesOf packets) := by
  induction packets generalizing config replies with
  | nil => simpa [Proofs.handleAll, repliesOf] using held
  | cons packet packets ih =>
    have rest := ih (held.handled packet.1 packet.2)
    rw [List.append_assoc] at rest
    have replies' : repliesOf (packet :: packets) = (replyOf packet.1).toList ++ repliesOf packets := by
      unfold repliesOf
      rw [List.filterMap_cons]
      cases replyOf packet.1 <;> rfl
    rw [replies']
    exact rest

/-- The table tells the latest of the first sixteen senders, from an empty table on. -/
theorem arp_table_right (config : NetworkConfig) (empty : ∀ slot, (config.arpTable slot).valid = false)
    (packets : List (Memory × Int)) : ArpTableRight (handleAll config packets) (repliesOf packets) := by
  have start : TableHeld config.arpTable [] :=
    ⟨holds_nil _, fun slot _ => empty slot, List.nodup_nil, fun _ member => absurd member List.not_mem_nil⟩
  have held := start.handleAll packets
  rw [List.nil_append] at held
  refine ⟨fun i j => held.ips_inj, held.lookup, ?_⟩
  intro packet len reply told full unknown
  rw [handlePacket_config, told]
  dsimp only
  rw [held.ignores unknown full]

theorem arp_table_right_cleared :
    ArpTableRight (handleAll ⟨fun _ => 0, 0, fun _ => ⟨0, fun _ => 0, false⟩⟩ [(fun address => UInt8.ofNat address, 60)])
      (repliesOf [(fun address => UInt8.ofNat address, 60)]) :=
  arp_table_right _ (fun _ => rfl) _

end Kernix.Proofs
