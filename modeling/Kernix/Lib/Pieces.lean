import Mathlib.Data.List.DropRight
import Mathlib.Data.List.Destutter

/-! Lists that are cut into pieces of one length, or at a separator, and lists that lose
their front when they grow beyond a length. A memory of the last items is such a list, in
which no item stands behind itself. -/

universe u
variable {α : Type u}

namespace Pieces

/-- The pieces of a list, all of the same length except the last. -/
def pieces (width : Nat) (items : List α) : List (List α) :=
  if 0 < width ∧ 0 < items.length then items.take width :: pieces width (items.drop width) else []
  termination_by items.length
  decreasing_by
    rw [List.length_drop]
    omega

@[simp] theorem pieces_nil (width : Nat) : pieces width ([] : List α) = [] := by
  rw [pieces, if_neg (by simp)]

theorem pieces_cons {width : Nat} (positive : 0 < width) {items : List α} (nonempty : 0 < items.length) :
    pieces width items = items.take width :: pieces width (items.drop width) := by
  rw [pieces, if_pos ⟨positive, nonempty⟩]

/-- The pieces make up the list. -/
theorem flatten_pieces {width : Nat} (positive : 0 < width) (items : List α) : (pieces width items).flatten = items := by
  induction items using pieces.induct width with
  | case1 items cut ih => rw [pieces_cons positive cut.2, List.flatten_cons, ih, List.take_append_drop]
  | case2 items whole =>
    have empty : items = [] := List.length_eq_zero_iff.mp (by omega)
    rw [empty, pieces_nil, List.flatten_nil]

theorem length_pieces_le {width : Nat} {items piece : List α} (member : piece ∈ pieces width items) :
    piece.length ≤ width := by
  induction items using pieces.induct width with
  | case1 items cut ih =>
    rw [pieces_cons cut.1 cut.2] at member
    obtain rfl | later := List.mem_cons.mp member
    · exact List.length_take_le width items
    · exact ih later
  | case2 items whole =>
    rw [pieces, if_neg whole] at member
    cases member

section Last

theorem rtake_of_length_le {items : List α} {count : Nat} (short : items.length ≤ count) : items.rtake count = items := by
  rw [List.rtake, Nat.sub_eq_zero_of_le short, List.drop_zero]

/-- What a list has lost before it grows, it would have lost anyway. -/
theorem rtake_append (items more : List α) (count : Nat) : (items.rtake count ++ more).rtake count =
    (items ++ more).rtake count := by
  simp only [List.rtake_eq_reverse_take_reverse, List.reverse_append, List.reverse_reverse, List.take_append,
    List.take_take]
  congr 3
  omega

/-- Beyond the length one item goes for each that comes. -/
theorem rtake_concat_full {items : List α} {count : Nat} (full : items.length = count) (positive : 0 < count) (item : α) :
    (items ++ [item]).rtake count = items.tail ++ [item] := by
  rw [List.rtake, List.length_append, full, List.length_singleton, Nat.add_sub_cancel_left,
    List.drop_append_of_le_length (by omega), List.drop_one]

end Last

section Lines

variable [DecidableEq α] {separator : α}

/-- The parts of a list between separators. An empty part behind the last one is none. -/
def lines (separator : α) (items : List α) : List (List α) :=
  if (items.splitOn separator).getLast? = some [] then (items.splitOn separator).dropLast else items.splitOn separator

/-- The lines, item by item, with the part of the current one that came before. -/
def gather (separator : α) (current : List α) : List α → List (List α)
  | [] => if current = [] then [] else [current]
  | item :: items =>
    if item = separator then current :: gather separator [] items else gather separator (current ++ [item]) items

theorem gather_eq (items : List α) {current : List α} (unbroken : separator ∉ current) :
    gather separator current items = lines separator (current ++ items) := by
  induction items generalizing current with
  | nil =>
    rw [gather, lines, List.append_nil, List.splitOn_eq_singleton unbroken, List.getLast?_singleton]
    by_cases empty : current = [] <;> simp [empty]
  | cons item items ih =>
    rw [gather]
    by_cases same : item = separator
    · subst same
      rw [if_pos rfl, ih List.not_mem_nil, List.nil_append, lines, lines, List.splitOn_append_cons_self,
        List.splitOn_eq_singleton unbroken, List.singleton_append]
      cases parts : items.splitOn item with
      | nil => exact absurd parts (List.splitOn_ne_nil _ _)
      | cons part parts =>
        rw [List.getLast?_cons_cons, List.dropLast_cons_cons]
        split <;> rfl
    · rw [if_neg same, ih (by simpa [not_or] using ⟨unbroken, Ne.symm same⟩), List.append_assoc, List.singleton_append]

/-- The first line goes on from its part. -/
theorem gather_front (separator : α) (items : List α) {current : List α} (some : current ≠ []) :
    ∃ more others, gather separator current items = (current ++ more) :: others := by
  induction items generalizing current with
  | nil => exact ⟨[], [], by rw [gather, if_neg some, List.append_nil]⟩
  | cons item items ih =>
    rw [gather]
    split
    · exact ⟨[], _, by rw [List.append_nil]⟩
    · obtain ⟨more, others, gathers⟩ := ih (List.concat_ne_nil item current)
      exact ⟨item :: more, others, by rw [gathers, List.append_assoc, List.singleton_append]⟩

/-- Lines with a separator behind each. -/
def terminated (separator : α) (parts : List (List α)) : List α := (parts.map (· ++ [separator])).flatten

/-- A list is its lines, with or without the last separator. -/
theorem gather_terminated (items : List α) (current : List α) :
    terminated separator (gather separator current items) = current ++ items ∨
      terminated separator (gather separator current items) = current ++ items ++ [separator] := by
  induction items generalizing current with
  | nil =>
    rw [gather]
    by_cases empty : current = [] <;> simp [empty, terminated]
  | cons item items ih =>
    rw [gather]
    by_cases same : item = separator
    · rw [if_pos same, same]
      have first : terminated separator (current :: gather separator [] items) =
          current ++ separator :: terminated separator (gather separator [] items) := by simp [terminated]
      rw [first]
      obtain whole | open' := ih []
      · exact Or.inl (by rw [whole, List.nil_append])
      · exact Or.inr (by rw [open', List.nil_append, List.append_assoc, List.cons_append])
    · rw [if_neg same]
      simpa using ih (current ++ [item])

omit [DecidableEq α] in
theorem intercalate_concat (front : List (List α)) (last : List α) :
    [separator].intercalate (front ++ [last]) = terminated separator front ++ last := by
  induction front with
  | nil => simp [terminated, List.intercalate]
  | cons part front ih =>
    have more : front ++ [last] ≠ [] := List.concat_ne_nil last front
    obtain ⟨next, others, split⟩ := List.exists_cons_of_ne_nil more
    rw [List.cons_append, split, List.intercalate_cons_cons, ← split, ih]
    simp [terminated]

/-- The first lines and a part of the next one, joined again, are the front of the list. -/
theorem intercalate_prefix {items : List α} {front : List (List α)} {last more : List α} {others : List (List α)}
    (gathers : gather separator [] items = front ++ (last ++ more) :: others) :
    [separator].intercalate (front ++ [last]) <+: items := by
  rw [intercalate_concat]
  have split : terminated separator (gather separator [] items) =
      (terminated separator front ++ last) ++ (more ++ separator :: terminated separator others) := by
    simp [gathers, terminated]
  obtain whole | ended := gather_terminated items []
  · rw [List.nil_append, split] at whole
    exact ⟨_, whole⟩
  · rw [List.nil_append, split] at ended
    have length := congrArg List.length ended
    simp only [List.length_append, List.length_cons, List.length_nil] at length
    refine List.prefix_of_prefix_length_le ⟨_, ended⟩ (List.prefix_append items [separator]) ?_
    rw [List.length_append]
    omega

end Lines

end Pieces

namespace History
variable [DecidableEq α] {capacity : Nat}

/-- The last items, with one for each run of equal ones. -/
def remembered (capacity : Nat) (items : List α) : List α := (items.destutter (· ≠ ·)).rtake capacity

/-- One more item, unless it is the last one already. -/
def record (capacity : Nat) (history : List α) (item : α) : List α :=
  if history.getLast? = some item then history else (history ++ [item]).rtake capacity

omit [DecidableEq α] in
theorem getLast?_rtake {count : Nat} (positive : 0 < count) (items : List α) :
    (items.rtake count).getLast? = items.getLast? := by
  rw [List.rtake_eq_reverse_take_reverse, List.getLast?_reverse, List.head?_take, if_neg (by omega), List.head?_reverse]

theorem destutter'_concat (first : α) (items : List α) (item : α) :
    (items ++ [item]).destutter' (· ≠ ·) first =
      if (items.destutter' (· ≠ ·) first).getLast? = some item then items.destutter' (· ≠ ·) first
      else items.destutter' (· ≠ ·) first ++ [item] := by
  induction items generalizing first with
  | nil =>
    rw [List.nil_append, List.destutter'_singleton, List.destutter'_nil, List.getLast?_singleton]
    by_cases same : first = item <;> simp [same]
  | cons other items ih =>
    rw [List.cons_append]
    by_cases apart : first ≠ other
    · obtain ⟨last, ends⟩ := Option.isSome_iff_exists.mp
        (List.getLast?_isSome.mpr (List.destutter'_ne_nil (l := items) (a := other) (· ≠ ·)))
      rw [List.destutter'_cons_pos _ apart, List.destutter'_cons_pos _ apart, ih other, List.getLast?_cons, ends]
      split <;> simp_all
    · rw [List.destutter'_cons_neg _ apart, List.destutter'_cons_neg _ apart, ih first]

theorem destutter_concat (items : List α) (item : α) :
    (items ++ [item]).destutter (· ≠ ·) =
      if (items.destutter (· ≠ ·)).getLast? = some item then items.destutter (· ≠ ·)
      else items.destutter (· ≠ ·) ++ [item] := by
  cases items with
  | nil => simp
  | cons first items => exact destutter'_concat first items item

/-- What is remembered is recorded item by item. -/
theorem remembered_concat (positive : 0 < capacity) (items : List α) (item : α) :
    remembered capacity (items ++ [item]) = record capacity (remembered capacity items) item := by
  unfold remembered record
  rw [getLast?_rtake positive, destutter_concat]
  split
  · rfl
  · rw [Pieces.rtake_append]

theorem mem_of_mem_remembered {items : List α} {item : α} (member : item ∈ remembered capacity items) : item ∈ items :=
  (List.destutter_sublist (· ≠ ·) items).subset (List.mem_of_mem_drop member)

/-- No item stands behind itself. -/
theorem isChain_remembered (items : List α) : (remembered capacity items).IsChain (· ≠ ·) :=
  (List.isChain_destutter (· ≠ ·) items).drop _

end History
