import Mathlib.Data.List.Basic

/-! Lists cut into segments at a doubled item, and the items trimmed off their ends. -/

namespace Segments
universe u
variable {α : Type u} [DecidableEq α] (separator : α)

/-- The first segment, and what is left behind the separator that ends it. -/
def cutAt : List α → List α × Option (List α)
  | [] => ([], none)
  | item :: rest =>
    if item = separator ∧ rest.head? = some separator then ([], some rest.tail)
    else (item :: (cutAt rest).1, (cutAt rest).2)

def prepend (item : α) : List (List α) → List (List α)
  | [] => [[item]]
  | segment :: segments => (item :: segment) :: segments

/-- The segments between the separators, which are taken leftmost first. -/
def split : List α → List (List α)
  | [] => [[]]
  | [item] => [[item]]
  | item :: next :: rest =>
    if item = separator ∧ next = separator then [] :: split rest else prepend item (split (next :: rest))

variable {separator} {items segment rest : List α}

theorem cut_length (ends : cutAt separator items = (segment, some rest)) :
    segment.length + 2 + rest.length = items.length := by
  induction items generalizing segment with
  | nil => cases ends
  | cons item items ih =>
    rw [cutAt] at ends
    split at ends
    next both =>
      obtain ⟨-, doubled⟩ := both
      cases ends
      obtain ⟨behind, rfl⟩ := List.head?_eq_some_iff.mp doubled
      simp only [List.length_nil, List.tail_cons, List.length_cons]
      omega
    next =>
      obtain ⟨rfl, last⟩ := Prod.mk.inj ends
      have lengths := @ih (cutAt separator items).1 (Prod.ext rfl last)
      simp only [List.length_cons]
      omega

/-- Without a separator the segment is the whole list. -/
theorem cut_whole (ends : (cutAt separator items).2 = none) : (cutAt separator items).1 = items := by
  induction items with
  | nil => rfl
  | cons item items ih =>
    rw [cutAt] at ends ⊢
    split at ends
    next => cases ends
    next single =>
      rw [if_neg single]
      exact congrArg (item :: ·) (ih ends)

theorem mem_cut {item : α} (member : item ∈ (cutAt separator items).1) : item ∈ items := by
  induction items with
  | nil => exact member
  | cons first items ih =>
    rw [cutAt] at member
    split at member
    next => cases member
    next =>
      rcases List.mem_cons.mp member with rfl | later
      · exact List.mem_cons_self
      · exact List.mem_cons_of_mem _ (ih later)

theorem mem_rest {item : α} (ends : (cutAt separator items).2 = some rest) (member : item ∈ rest) : item ∈ items := by
  induction items with
  | nil => cases ends
  | cons first items ih =>
    rw [cutAt] at ends
    split at ends
    next =>
      cases ends
      exact List.mem_cons_of_mem _ (List.mem_of_mem_tail member)
    next => exact List.mem_cons_of_mem _ (ih ends)

/-- The items that are skipped in front of a list are skipped in its first segment. -/
theorem cut_dropWhile (skipped : α → Bool) (kept : skipped separator = false) (items : List α) :
    cutAt separator (items.dropWhile skipped) =
      ((cutAt separator items).1.dropWhile skipped, (cutAt separator items).2) := by
  induction items with
  | nil => rfl
  | cons item items ih =>
    by_cases skip : skipped item = true
    · have other : item ≠ separator := by
        rintro rfl
        simp [kept] at skip
      rw [List.dropWhile_cons_of_pos skip, ih, cutAt, if_neg fun both => other both.1, List.dropWhile_cons_of_pos skip]
    · rw [List.dropWhile_cons_of_neg skip, cutAt]
      split
      next => rfl
      next => rw [List.dropWhile_cons_of_neg skip]

/-- The segments are the first one and the segments of what is left. -/
theorem split_cut (items : List α) : split separator items =
    (cutAt separator items).1 :: ((cutAt separator items).2.map (split separator)).getD [] := by
  induction items using split.induct separator with
  | case1 => rfl
  | case2 item => simp [split, cutAt]
  | case3 item next rest both =>
    obtain ⟨rfl, rfl⟩ := both
    simp [split, cutAt]
  | case4 item next rest single ih =>
    have first : cutAt separator (item :: next :: rest) =
        (item :: (cutAt separator (next :: rest)).1, (cutAt separator (next :: rest)).2) := by
      rw [cutAt, if_neg (by simpa using single)]
    rw [split, if_neg single, ih, first]
    rfl

theorem split_ne_nil (items : List α) : split separator items ≠ [] := by
  rw [split_cut]
  exact List.cons_ne_nil _ _

theorem split_single (ends : (cutAt separator items).2 = none) : split separator items = [(cutAt separator items).1] := by
  rw [split_cut, ends]
  rfl

theorem split_rest (ends : (cutAt separator items).2 = some rest) :
    split separator items = (cutAt separator items).1 :: split separator rest := by
  rw [split_cut, ends]
  rfl

/-- Only the empty list has one empty segment. -/
theorem split_empty_iff : split separator items = [[]] ↔ items = [] := by
  constructor
  · intro single
    cases ends : (cutAt separator items).2 with
    | none =>
      rw [split_single ends] at single
      rw [← cut_whole ends]
      exact List.singleton_inj.mp single
    | some rest =>
      rw [split_rest ends] at single
      exact absurd (List.cons.inj single).2 (split_ne_nil rest)
  · rintro rfl
    rfl

end Segments
