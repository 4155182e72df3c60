import Mathlib.Data.List.Basic

/-! Doubly linked lists: the nodes that the links lead through, from a first one to
the null node, each with a link back to the one before it. -/

namespace DoublyLinked
universe u
variable {α : Type u} {next prev next' prev' : α → α} {null : α}

/-- From `current` the links lead through the items to the null node. The first item
leads back to `before`. -/
def Linked (next prev : α → α) (null : α) : α → α → List α → Prop
  | _, current, [] => current = null
  | before, current, item :: items =>
    current = item ∧ item ≠ null ∧ prev item = before ∧ Linked next prev null item (next item) items

/-- Links that change outside of the items, and the first link back. -/
theorem Linked.relink {before before' current : α} {items : List α} (linked : Linked next prev null before current items)
    (forth : ∀ item ∈ items, next' item = next item) (back : ∀ item ∈ items.tail, prev' item = prev item)
    (first : ∀ item ∈ items.head?, prev' item = before') : Linked next' prev' null before' current items := by
  induction items generalizing before before' current with
  | nil => exact linked
  | cons item items ih =>
    obtain ⟨here, real, _, rest⟩ := linked
    refine ⟨here, real, first item rfl, ?_⟩
    rw [forth item List.mem_cons_self]
    apply ih rest
    · exact fun other member => forth other (List.mem_cons_of_mem _ member)
    · exact fun other member => back other (List.mem_of_mem_tail member)
    · intro other member
      cases items with
      | nil => cases member
      | cons second items =>
        obtain rfl : second = other := Option.some.inj member
        rw [back second List.mem_cons_self]
        exact rest.2.2.1

/-- A new node in front of the first. -/
theorem Linked.push {before current new : α} {items : List α} (linked : Linked next prev null before current items)
    (real : new ≠ null) (forth : ∀ item ∈ items, next' item = next item) (leads : next' new = current)
    (back : ∀ item ∈ items.tail, prev' item = prev item) (first : ∀ item ∈ items.head?, prev' item = new)
    (start : prev' new = before) : Linked next' prev' null before new (new :: items) := by
  refine ⟨rfl, real, start, ?_⟩
  rw [leads]
  exact linked.relink forth back first

theorem Linked.current_head {before current item : α} {items : List α}
    (linked : Linked next prev null before current items)
    (first : item ∈ items.head?) : item = current := by
  cases items with
  | nil => cases first
  | cons other items => exact (Option.some.inj first).symm.trans linked.1.symm

theorem Linked.current_mem {before current : α} {items : List α} (linked : Linked next prev null before current items)
    (real : current ≠ null) : current ∈ items := by
  cases items with
  | nil => exact absurd linked real
  | cons item items =>
    rw [linked.1]
    exact List.mem_cons_self

theorem Linked.not_null {before current : α} {items : List α} (linked : Linked next prev null before current items) :
    null ∉ items := by
  induction items generalizing before current with
  | nil => exact List.not_mem_nil
  | cons item items ih =>
    obtain ⟨_, real, _, rest⟩ := linked
    exact not_or.mpr ⟨Ne.symm real, ih rest⟩ ∘ List.mem_cons.mp

/-- A link forth leads into the list, and the link back from there to where it came from. -/
theorem Linked.next_prev {before current item : α} {items : List α} (linked : Linked next prev null before current items)
    (member : item ∈ items) (real : next item ≠ null) : next item ∈ items ∧ prev (next item) = item := by
  induction items generalizing before current with
  | nil => cases member
  | cons first items ih =>
    obtain ⟨_, _, _, rest⟩ := linked
    rcases List.mem_cons.mp member with rfl | later
    · cases items with
      | nil => exact absurd rest real
      | cons second items =>
        obtain ⟨here, _, back, _⟩ := rest
        rw [here]
        exact ⟨List.mem_cons_of_mem _ List.mem_cons_self, back⟩
    · obtain ⟨inside, back⟩ := ih rest later
      exact ⟨List.mem_cons_of_mem _ inside, back⟩

/-- A node is the first, or its link back leads into the list and the link forth from
there to it. -/
theorem Linked.prev_next {before current item : α} {items : List α} (linked : Linked next prev null before current items)
    (member : item ∈ items) : prev item = before ∧ current = item ∨ prev item ∈ items ∧ next (prev item) = item := by
  induction items generalizing before current with
  | nil => cases member
  | cons first items ih =>
    obtain ⟨here, _, back, rest⟩ := linked
    rcases List.mem_cons.mp member with rfl | later
    · exact .inl ⟨back, here⟩
    · right
      rcases ih rest later with ⟨same, forth⟩ | ⟨inside, forth⟩
      · rw [same]
        exact ⟨List.mem_cons_self, forth⟩
      · exact ⟨List.mem_cons_of_mem _ inside, forth⟩

/-- The links from a node determine the nodes behind it. -/
theorem Linked.unique {before before' current : α} {items others : List α}
    (linked : Linked next prev null before current items) (other : Linked next prev' null before' current others) :
    items = others := by
  induction items generalizing before before' current others with
  | nil =>
    cases others with
    | nil => rfl
    | cons item others => exact absurd (other.1.symm.trans linked) other.2.1
  | cons item items ih =>
    cases others with
    | nil => exact absurd (linked.1.symm.trans other) linked.2.1
    | cons second others =>
      obtain rfl := linked.1.symm.trans other.1
      rw [ih linked.2.2.2 other.2.2.2]

/-- From a node in the list the links go on to the end of the list. -/
theorem Linked.suffix {before current item : α} {items : List α} (linked : Linked next prev null before current items)
    (member : item ∈ items) : ∃ rest, (item :: rest) <:+ items ∧
    Linked next prev null (prev item) item (item :: rest) := by
  induction items generalizing before current with
  | nil => cases member
  | cons first items ih =>
    rcases List.mem_cons.mp member with rfl | later
    · exact ⟨items, List.suffix_refl _, rfl, linked.2.1, rfl, linked.2.2.2⟩
    · obtain ⟨rest, behind, links⟩ := ih linked.2.2.2 later
      exact ⟨rest, behind.trans (List.suffix_cons _ _), links⟩

/-- No node comes twice. -/
theorem Linked.nodup {before current : α} {items : List α} (linked : Linked next prev null before current items) :
    items.Nodup := by
  induction items generalizing before current with
  | nil => exact List.nodup_nil
  | cons item items ih =>
    refine List.nodup_cons.mpr ⟨?_, ih linked.2.2.2⟩
    intro again
    obtain ⟨rest, behind, links⟩ := linked.2.2.2.suffix again
    have same := linked.2.2.2.unique links.2.2.2
    have shorter := behind.length_le
    rw [same, List.length_cons] at shorter
    omega

/-- Behind the first node of the list it does not come again. -/
theorem Linked.tail_ne {before current item : α} {items : List α} (linked : Linked next prev null before current items)
    (behind : item ∈ items.tail) : item ≠ current := by
  cases items with
  | nil => cases behind
  | cons first items =>
    rintro rfl
    have distinct := linked.nodup
    rw [← linked.1] at distinct
    exact (List.nodup_cons.mp distinct).1 behind

end DoublyLinked
