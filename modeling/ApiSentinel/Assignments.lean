import Mathlib.Data.List.Forall2
import Mathlib.Data.List.Induction

/-!
# Assigning items to their keys

A dictionary of items that are assigned to their keys one after the other.  An item takes
the place of the earlier one with its key, so the last item of each key stays.  Items
without a key are all kept.
-/

namespace Assignments

variable {Item Other Key Label : Type} {key : Item → Option Key} {label : Other → Option Label}
  {one two three item : Item} {items known : List Item}

def SameKey (key : Item → Option Key) (one two : Item) : Prop :=
  (key one).isSome = true ∧ key one = key two

instance [DecidableEq Key] : Decidable (SameKey key one two) := instDecidableAnd

theorem SameKey.symm (same : SameKey key one two) : SameKey key two one :=
  ⟨same.2 ▸ same.1, same.2.symm⟩

theorem SameKey.trans (first : SameKey key one two) (second : SameKey key two three) :
    SameKey key one three :=
  ⟨first.1, first.2.trans second.2⟩

theorem sameKey_iff : SameKey key one two ↔ ∃ name, key one = some name ∧ key two = some name := by
  constructor
  · rintro ⟨given, same⟩
    obtain ⟨name, found⟩ := Option.isSome_iff_exists.mp given
    exact ⟨name, found, same ▸ found⟩
  · rintro ⟨name, first, second⟩
    exact ⟨by rw [first]; rfl, first.trans second.symm⟩

/-- No two items have one key. -/
def Distinct (key : Item → Option Key) (items : List Item) : Prop :=
  items.Pairwise fun one two => ¬ SameKey key one two

/-- Among distinct items, those with one key are one item. -/
theorem Distinct.eq_of_sameKey (distinct : Distinct key items) (first : one ∈ items)
    (second : two ∈ items) (same : SameKey key one two) : one = two := by
  induction distinct with
  | nil => cases first
  | cons differs _ ih =>
      rcases List.mem_cons.mp first with rfl | early
      · rcases List.mem_cons.mp second with rfl | late
        · rfl
        · exact absurd same (differs two late)
      · rcases List.mem_cons.mp second with rfl | late
        · exact absurd same.symm (differs one early)
        · exact ih early late

/-- The last item of a list with its key. -/
def LastOf (key : Item → Option Key) (items : List Item) (item : Item) : Prop :=
  ∃ before after, items = before ++ item :: after ∧ ∀ later ∈ after, ¬ SameKey key later item

variable [DecidableEq Key] [DecidableEq Label]

/-- `items[key(item)] = item` -/
def assign (key : Item → Option Key) (item : Item) : List Item → List Item
  | [] => [item]
  | known :: items =>
      if SameKey key known item then item :: items else known :: assign key item items

def assignAll (key : Item → Option Key) (items : List Item) : List Item :=
  items.foldl (fun known item => assign key item known) []

theorem assignAll_concat :
    assignAll key (items ++ [item]) = assign key item (assignAll key items) := by
  unfold assignAll
  rw [List.foldl_concat]

theorem mem_assign_iff (distinct : Distinct key known) :
    one ∈ assign key item known ↔ one = item ∨ one ∈ known ∧ ¬ SameKey key one item := by
  induction distinct with
  | nil => simp [assign]
  | @cons first known differs _ ih =>
      rw [assign]
      split
      · rename_i same
        rw [List.mem_cons, List.mem_cons]
        refine or_congr_right ⟨fun later => ⟨.inr later, fun again => ?_⟩, ?_⟩
        · exact differs one later (same.trans again.symm)
        · rintro ⟨rfl | later, other⟩
          · exact absurd same other
          · exact later
      · rename_i apart
        rw [List.mem_cons, List.mem_cons, ih]
        constructor
        · rintro (rfl | rfl | ⟨later, other⟩)
          · exact .inr ⟨.inl rfl, apart⟩
          · exact .inl rfl
          · exact .inr ⟨.inr later, other⟩
        · rintro (rfl | ⟨rfl | later, other⟩)
          · exact .inr (.inl rfl)
          · exact .inl rfl
          · exact .inr (.inr ⟨later, other⟩)

theorem distinct_assign (distinct : Distinct key known) : Distinct key (assign key item known) := by
  induction distinct with
  | nil => exact List.pairwise_singleton _ _
  | @cons first known differs rest ih =>
      rw [assign]
      split
      · rename_i same
        exact .cons (fun other member again => differs other member (same.trans again)) rest
      · rename_i apart
        refine .cons ?_ ih
        intro other member same
        rcases (mem_assign_iff rest).mp member with rfl | ⟨later, _⟩
        · exact apart same
        · exact differs other later same

theorem distinct_assignAll (key : Item → Option Key) (items : List Item) :
    Distinct key (assignAll key items) := by
  induction items using List.reverseRecOn with
  | nil => exact .nil
  | append_singleton items item ih =>
      rw [assignAll_concat]
      exact distinct_assign ih

/-- What is left is the last item of its key. -/
theorem lastOf_of_mem_assignAll (member : item ∈ assignAll key items) : LastOf key items item := by
  induction items using List.reverseRecOn with
  | nil => cases member
  | append_singleton items last ih =>
      rw [assignAll_concat] at member
      rcases (mem_assign_iff (distinct_assignAll key items)).mp member with rfl | ⟨kept, apart⟩
      · exact ⟨items, [], rfl, List.forall_mem_nil _⟩
      · obtain ⟨before, after, rfl, none⟩ := ih kept
        refine ⟨before, after ++ [last], by simp, ?_⟩
        intro later member
        rcases List.mem_append.mp member with among | now
        · exact none later among
        · cases List.mem_singleton.mp now
          exact fun same => apart same.symm

/-- The last item of its key is left. -/
theorem mem_assignAll_of_lastOf (last : LastOf key items item) : item ∈ assignAll key items := by
  obtain ⟨before, after, rfl, none⟩ := last
  induction after using List.reverseRecOn with
  | nil =>
      rw [assignAll_concat]
      exact (mem_assign_iff (distinct_assignAll key before)).mpr (.inl rfl)
  | append_singleton after later ih =>
      rw [← List.cons_append, ← List.append_assoc, assignAll_concat]
      refine (mem_assign_iff (distinct_assignAll key _)).mpr (.inr ⟨?_, ?_⟩)
      · exact ih fun other member => none other (List.mem_append_left _ member)
      · exact fun same => none later (by simp) same.symm

theorem mem_assignAll_iff : item ∈ assignAll key items ↔ LastOf key items item :=
  ⟨lastOf_of_mem_assignAll, mem_assignAll_of_lastOf⟩

theorem mem_of_mem_assignAll (member : item ∈ assignAll key items) : item ∈ items := by
  obtain ⟨before, after, rfl, _⟩ := lastOf_of_mem_assignAll member
  exact List.mem_append_right before List.mem_cons_self

/-- Every key has an item that is left. -/
theorem exists_of_mem (key : Item → Option Key) (member : item ∈ items) :
    ∃ left ∈ assignAll key items, left = item ∨ SameKey key item left := by
  induction items using List.reverseRecOn with
  | nil => cases member
  | append_singleton items last ih =>
      rw [assignAll_concat]
      have distinct := distinct_assignAll key items
      have now : last ∈ assign key last (assignAll key items) :=
        (mem_assign_iff distinct).mpr (.inl rfl)
      rcases List.mem_append.mp member with among | same
      · obtain ⟨left, kept, found⟩ := ih among
        by_cases replaced : SameKey key left last
        · rcases found with rfl | found
          · exact ⟨last, now, .inr replaced⟩
          · exact ⟨last, now, .inr (found.trans replaced)⟩
        · exact ⟨left, (mem_assign_iff distinct).mpr (.inr ⟨kept, replaced⟩), found⟩
      · exact ⟨last, now, .inl (List.mem_singleton.mp same).symm⟩

/-! ### Two lists of items -/

variable {related : Item → Other → Prop} {others learnt : List Other}

theorem forall₂_assign
    (agree : ∀ {one two other another}, related one other → related two another →
      (SameKey key one two ↔ SameKey label other another))
    (both : List.Forall₂ related known learnt) {other : Other} (alike : related item other) :
    List.Forall₂ related (assign key item known) (assign label other learnt) := by
  induction both with
  | nil => exact .cons alike .nil
  | @cons first _ _ _ same rest ih =>
      rw [assign, assign]
      by_cases replaced : SameKey key first item
      · rw [if_pos replaced, if_pos ((agree same alike).mp replaced)]
        exact .cons alike rest
      · rw [if_neg replaced, if_neg (mt (agree same alike).mpr replaced)]
        exact .cons same ih

/-- Where the keys of related items agree, related items are left. -/
theorem forall₂_assignAll
    (agree : ∀ {one two other another}, related one other → related two another →
      (SameKey key one two ↔ SameKey label other another))
    (both : List.Forall₂ related items others) :
    List.Forall₂ related (assignAll key items) (assignAll label others) := by
  unfold assignAll
  suffices all : ∀ known learnt, List.Forall₂ related known learnt →
      List.Forall₂ related (items.foldl (fun known item => assign key item known) known)
        (others.foldl (fun known item => assign label item known) learnt) from all [] [] .nil
  induction both with
  | nil => exact fun _ _ before => before
  | cons alike _ ih => exact fun _ _ before => ih _ _ (forall₂_assign agree before alike)

end Assignments
