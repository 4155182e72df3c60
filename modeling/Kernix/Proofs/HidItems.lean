import Mathlib.Data.List.Basic
import Mathlib.Tactic.Ring
import Kernix.Drivers.Xhci

/-! The short items of a report descriptor, and how the parser of the drivers passes them.
The size code 3 stands for four bytes, and the parser takes three. -/

namespace Kernix.Proofs

/-- How many bytes of data an item has, by its size code. -/
def dataBytes (code : Nat) : Nat := if code = 3 then 4 else code

def littleEndian : List UInt8 → Nat
  | [] => 0
  | byte :: rest => byte.toNat + 2 ^ 8 * littleEndian rest

/-- The item with a head and its data. -/
def itemOf (offset : Nat) (head : UInt8) (data : List UInt8) : HidItem :=
  ⟨offset, data.length, ((head >>> 2) &&& 0x03).toNat, ((head >>> 4) &&& 0x0F).toNat, littleEndian data⟩

/-- The data bytes that a head announces. -/
def announced (head : UInt8) : Nat := dataBytes (head &&& 0x03).toNat

/-- The short items of a descriptor, and whether the last of them is whole. One that is cut
off is no item. -/
def shortItems (offset : Nat) : List UInt8 → List HidItem × Bool
  | [] => ([], true)
  | head :: rest =>
    if rest.length < announced head then ([], false)
    else
      let (items, whole) := shortItems (offset + 1 + announced head) (rest.drop (announced head))
      (itemOf offset head (rest.take (announced head)) :: items, whole)
termination_by bytes => bytes.length
decreasing_by
  simp only [List.length_drop, List.length_cons]
  omega

/-- The type that the last item of a kind gives a device. -/
def typeBy (bType bTag : Nat) (items : List HidItem) (type : Nat) : Nat := items.foldl (namedType bType bTag) type

/-- The parser ends, reads nothing behind the descriptor, passes the short items, and
leaves the type that the usage items among them give. These are local ones with tag 0. -/
def ReportParsed (reportDesc : List UInt8) (type : Nat)
    (parse : Nat → List UInt8 → Nat → Except Stop (Option (List HidItem × Nat))) : Prop :=
  ∃ enough, ∀ fuel ≥ enough, parse fuel reportDesc type =
    .ok (some ((shortItems 0 reportDesc).1, typeBy 2 0 (shortItems 0 reportDesc).1 type))

/-- Every item is whole and has fewer than four bytes of data, and the report counts among
them, which are global ones with tag 9, give the type that the usage items give. -/
structure ReportPlain (reportDesc : List UInt8) (type : Nat) : Prop where
  whole : (shortItems 0 reportDesc).2 = true
  small : ∀ item ∈ (shortItems 0 reportDesc).1, item.bytes ≠ 4
  agree : typeBy 1 9 (shortItems 0 reportDesc).1 type = typeBy 2 0 (shortItems 0 reportDesc).1 type

section Items
variable {reportDesc : List UInt8} {i : Nat}

theorem code_lt (head : UInt8) : (head &&& 0x03).toNat < 4 := by
  rw [UInt8.toNat_and]
  exact Nat.lt_succ_of_le Nat.and_le_right

theorem announced_eq_iff (head : UInt8) : announced head = (head &&& 0x03).toNat ↔ announced head ≠ 4 := by
  have small := code_lt head
  unfold announced dataBytes
  split <;> omega

theorem littleEndian_append (first : List UInt8) (last : UInt8) :
    littleEndian (first ++ [last]) = littleEndian first + last.toNat * 2 ^ (first.length * 8) := by
  induction first with
  | nil => simp [littleEndian]
  | cons byte first ih =>
    rw [List.cons_append, littleEndian, ih, littleEndian, List.length_cons, Nat.succ_mul, Nat.pow_add]
    ring

theorem littleEndian_lt (bytes : List UInt8) : littleEndian bytes < 2 ^ (bytes.length * 8) := by
  induction bytes with
  | nil => decide
  | cons byte bytes ih =>
    have small := byte.toNat_lt
    rw [littleEndian, List.length_cons, Nat.succ_mul, Nat.pow_add]
    omega

/-- The bytes of data that are read are the next ones of the descriptor. -/
theorem itemData_eq {rest : List UInt8} (behind : reportDesc.drop (i + 1) = rest) (left j : Nat) :
    itemData reportDesc i left j (littleEndian (rest.take j)) =
      if j + left ≤ rest.length ∨ left = 0 then .ok (littleEndian (rest.take (j + left))) else .error .undefined := by
  induction left generalizing j with
  | zero => rw [if_pos (.inr rfl), itemData, Nat.add_zero]
  | succ left ih =>
    have place : reportDesc[i + 1 + j]? = rest[j]? := by rw [← behind, List.getElem?_drop]
    unfold itemData reportByte
    rw [place]
    by_cases inside : j < rest.length
    · have next : rest.take (j + 1) = rest.take j ++ [rest[j]] := List.take_succ_eq_append_getElem inside
      have low := littleEndian_lt (rest.take j)
      rw [List.length_take, Nat.min_eq_left inside.le] at low
      have value : littleEndian (rest.take j) ||| rest[j].toNat <<< (j * 8) = littleEndian (rest.take (j + 1)) := by
        rw [next, littleEndian_append, List.length_take, Nat.min_eq_left inside.le, Nat.or_comm,
          ← Nat.shiftLeft_add_eq_or_of_lt low, Nat.shiftLeft_eq, Nat.add_comm]
      rw [List.getElem?_eq_getElem inside]
      simp only [bind, Except.bind, value]
      rw [ih (j + 1), show j + 1 + left = j + (left + 1) by omega]
      by_cases enough : j + (left + 1) ≤ rest.length
      · rw [if_pos (.inl enough), if_pos (.inl enough)]
      · rw [if_neg (by omega), if_neg (by omega)]
    · rw [List.getElem?_eq_none (Nat.not_lt.mp inside), if_neg (by omega)]
      rfl

theorem parseItems_end (ended : reportDesc.drop i = []) (fuel type : Nat) :
    parseItems reportDesc (fuel + 1) i type = .ok (some ([], type)) :=
  if_neg (Nat.not_lt.mpr (List.drop_eq_nil_iff.mp ended))

/-- One turn of the loop: the parser takes as many bytes as the size code says, and has to
find them. -/
theorem parseItems_item (short : reportDesc.length < 2 ^ 16) {head : UInt8} {rest : List UInt8}
    (next : reportDesc.drop i = head :: rest) (fuel type : Nat) :
    parseItems reportDesc (fuel + 1) i type =
      if (head &&& 0x03).toNat ≤ rest.length then
        (parseItems reportDesc fuel (i + 1 + (head &&& 0x03).toNat)
          (namedType 1 9 type (itemOf i head (rest.take (head &&& 0x03).toNat)))).map
            (Option.map fun (items, type) => (itemOf i head (rest.take (head &&& 0x03).toNat) :: items, type))
      else .error .undefined := by
  have length := congrArg List.length next
  rw [List.length_drop, List.length_cons] at length
  have first : reportDesc[i]? = some head := by
    rw [← Nat.add_zero i, ← List.getElem?_drop, next]
    rfl
  have behind : reportDesc.drop (i + 1) = rest := by
    rw [← List.drop_drop, next]
    rfl
  have data := itemData_eq behind (head &&& 0x03).toNat 0
  rw [Nat.zero_add, show littleEndian (rest.take 0) = 0 from rfl] at data
  conv_lhs => unfold parseItems reportByte
  rw [if_pos (by omega), first]
  simp only [bind, Except.bind, data]
  by_cases enough : (head &&& 0x03).toNat ≤ rest.length
  · have wraps : (i + 1 + (head &&& 0x03).toNat) % 2 ^ 16 = i + 1 + (head &&& 0x03).toNat := Nat.mod_eq_of_lt (by omega)
    have taken : (rest.take (head &&& 0x03).toNat).length = (head &&& 0x03).toNat := by
      rw [List.length_take, Nat.min_eq_left enough]
    have item : itemOf i head (rest.take (head &&& 0x03).toNat) = ⟨i, (head &&& 0x03).toNat,
        ((head >>> 2) &&& 0x03).toNat, ((head >>> 4) &&& 0x0F).toNat,
        littleEndian (rest.take (head &&& 0x03).toNat)⟩ := by rw [itemOf, taken]
    rw [if_pos (.inl enough), if_pos enough, wraps, item]
    dsimp only
    cases parseItems reportDesc fuel (i + 1 + (head &&& 0x03).toNat) _ <;> rfl
  · rw [if_neg (by omega), if_neg enough]

end Items

section Walks
variable {reportDesc : List UInt8} {i : Nat}

theorem shortItems_item {head : UInt8} {rest : List UInt8} (room : announced head ≤ rest.length) :
    shortItems i (head :: rest) =
      (itemOf i head (rest.take (announced head)) ::
          (shortItems (i + 1 + announced head) (rest.drop (announced head))).1,
        (shortItems (i + 1 + announced head) (rest.drop (announced head))).2) := by
  rw [shortItems, if_neg (Nat.not_lt.mpr room)]

theorem shortItems_cut {head : UInt8} {rest : List UInt8} (cut : rest.length < announced head) :
    shortItems i (head :: rest) = ([], false) := by
  rw [shortItems, if_pos cut]

theorem drop_item {head : UInt8} {rest : List UInt8} (next : reportDesc.drop i = head :: rest) (count : Nat) :
    reportDesc.drop (i + 1 + count) = rest.drop count := by
  rw [Nat.add_assoc, ← List.drop_drop, next, Nat.add_comm, List.drop_succ_cons]

/-- Whole items of fewer than four bytes are passed one by one. -/
theorem parseItems_plain (short : reportDesc.length < 2 ^ 16) (fuel type : Nat)
    (whole : (shortItems i (reportDesc.drop i)).2 = true)
    (small : ∀ item ∈ (shortItems i (reportDesc.drop i)).1, item.bytes ≠ 4)
    (enough : (reportDesc.drop i).length < fuel) :
    parseItems reportDesc fuel i type =
      .ok (some ((shortItems i (reportDesc.drop i)).1, typeBy 1 9 (shortItems i (reportDesc.drop i)).1 type)) := by
  induction fuel generalizing i type with
  | zero => cases enough
  | succ fuel ih =>
    cases next : reportDesc.drop i with
    | nil =>
      rw [parseItems_end next, shortItems]
      rfl
    | cons head rest =>
      rw [next] at whole small enough
      rw [List.length_cons] at enough
      have room : announced head ≤ rest.length := by
        by_contra cut
        rw [shortItems_cut (Nat.not_le.mp cut)] at whole
        cases whole
      rw [shortItems_item room] at whole small ⊢
      obtain ⟨first, others⟩ := List.forall_mem_cons.mp small
      have length : (rest.take (announced head)).length = announced head := by
        rw [List.length_take, Nat.min_eq_left room]
      have code := (announced_eq_iff head).mpr (length ▸ first)
      have behind := drop_item next (announced head)
      rw [← behind] at whole others ⊢
      have later := ih (namedType 1 9 type (itemOf i head (rest.take (announced head)))) whole others
        (by rw [behind, List.length_drop]; omega)
      rw [parseItems_item short next, ← code, if_pos room, later]
      rfl

/-- A parser that passes the short items of a descriptor takes all their bytes. -/
theorem parseItems_passes (short : reportDesc.length < 2 ^ 16) {fuel type result : Nat}
    (passes : parseItems reportDesc fuel i type = .ok (some ((shortItems i (reportDesc.drop i)).1, result))) :
    (shortItems i (reportDesc.drop i)).2 = true ∧
      (∀ item ∈ (shortItems i (reportDesc.drop i)).1, item.bytes ≠ 4) ∧
      result = typeBy 1 9 (shortItems i (reportDesc.drop i)).1 type := by
  induction fuel generalizing i type with
  | zero => cases passes
  | succ fuel ih =>
    cases next : reportDesc.drop i with
    | nil =>
      rw [next, parseItems_end next, shortItems] at passes
      cases passes
      rw [shortItems]
      exact ⟨rfl, List.forall_mem_nil _, rfl⟩
    | cons head rest =>
      rw [next, parseItems_item short next] at passes
      split at passes
      · next found =>
        obtain ⟨returned, walks, mapped⟩ := map_ok passes
        obtain ⟨⟨items, type'⟩, rfl, same⟩ := Option.map_eq_some_iff.mp mapped
        by_cases cut : rest.length < announced head
        · rw [shortItems_cut cut] at same
          cases same
        · have room := Nat.not_lt.mp cut
          rw [shortItems_item room] at same ⊢
          obtain ⟨items_eq, rfl⟩ := Prod.ext_iff.mp same
          obtain ⟨item, rfl⟩ := List.cons_eq_cons.mp items_eq
          have lengths := congrArg HidItem.bytes item
          simp only [itemOf, List.length_take, Nat.min_eq_left room, Nat.min_eq_left found] at lengths
          have behind := drop_item next (announced head)
          rw [lengths, ← behind] at walks
          obtain ⟨whole, small, result⟩ := ih walks
          rw [behind] at whole small result
          refine ⟨whole, List.forall_mem_cons.mpr ⟨?_, small⟩, ?_⟩
          · rw [itemOf, List.length_take, Nat.min_eq_left room]
            exact (announced_eq_iff head).mp lengths.symm
          · exact result
      · cases passes

end Walks

/-- The parser does its work exactly on the descriptors that are plain. -/
theorem parseHidReport_iff {reportDesc : List UInt8} (short : reportDesc.length < 2 ^ 16) (type : Nat) :
    ReportParsed reportDesc type parseHidReport ↔ ReportPlain reportDesc type := by
  constructor
  · rintro ⟨enough, parses⟩
    obtain ⟨whole, small, result⟩ := parseItems_passes (i := 0) short (parses enough le_rfl)
    exact ⟨whole, small, result.symm⟩
  · rintro ⟨whole, small, agree⟩
    refine ⟨reportDesc.length + 1, fun fuel enough => ?_⟩
    have parses := parseItems_plain (i := 0) short fuel type whole small enough
    rw [show reportDesc.drop 0 = reportDesc from rfl, agree] at parses
    exact parses

/-- So do all four of its copies. -/
theorem hid_reports_parsed_iff {reportDesc : List UInt8} (short : reportDesc.length < 2 ^ 16) (type : Nat) :
    (ReportParsed reportDesc type xhciParseHidReport ↔ ReportPlain reportDesc type) ∧
      (ReportParsed reportDesc type ohciParseHidReport ↔ ReportPlain reportDesc type) ∧
      (ReportParsed reportDesc type ehciParseHidReport ↔ ReportPlain reportDesc type) ∧
      (ReportParsed reportDesc type uhciParseHidReport ↔ ReportPlain reportDesc type) :=
  ⟨parseHidReport_iff short type, parseHidReport_iff short type, parseHidReport_iff short type,
    parseHidReport_iff short type⟩

/-- A usage page and a collection. -/
theorem hid_reports_parsed_iff_plain :
    (ReportParsed [0x05, 0x01, 0xA1, 0x01, 0xC0] 0 xhciParseHidReport ↔ ReportPlain [0x05, 0x01, 0xA1, 0x01, 0xC0] 0) ∧
      (ReportParsed [0x05, 0x01, 0xA1, 0x01, 0xC0] 0 ohciParseHidReport ↔ ReportPlain [0x05, 0x01, 0xA1, 0x01, 0xC0] 0) ∧
      (ReportParsed [0x05, 0x01, 0xA1, 0x01, 0xC0] 0 ehciParseHidReport ↔ ReportPlain [0x05, 0x01, 0xA1, 0x01, 0xC0] 0) ∧
      (ReportParsed [0x05, 0x01, 0xA1, 0x01, 0xC0] 0 uhciParseHidReport ↔ ReportPlain [0x05, 0x01, 0xA1, 0x01, 0xC0] 0) :=
  hid_reports_parsed_iff (by decide) 0

/-- The descriptor of a mouse whose first item, a logical maximum, has four bytes of data.
The last of them is taken for an item of its own. -/
theorem hid_reports_parsed_fails : ¬∀ (reportDesc : List UInt8) (type : Nat), reportDesc.length < 2 ^ 16 →
    ReportParsed reportDesc type xhciParseHidReport ∧ ReportParsed reportDesc type ohciParseHidReport ∧
      ReportParsed reportDesc type ehciParseHidReport ∧ ReportParsed reportDesc type uhciParseHidReport := by
  intro right
  have parsed := (right [0x27, 0xFF, 0xFF, 0x00, 0x00, 0x09, 0x02] 0 (by decide)).1
  have first : announced 0x27 = 4 := by decide
  have item : itemOf 0 0x27 [0xFF, 0xFF, 0x00, 0x00] ∈ (shortItems 0 [0x27, 0xFF, 0xFF, 0x00, 0x00, 0x09, 0x02]).1 := by
    rw [shortItems_item (by decide), first]
    exact List.mem_cons_self
  exact ((parseHidReport_iff (by decide) 0).mp parsed).small _ item rfl

end Kernix.Proofs
