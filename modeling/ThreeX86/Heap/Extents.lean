import Mathlib.Algebra.GroupWithZero.Nat
import Mathlib.Data.List.Pairwise
import Mathlib.Data.List.TakeWhile
import Mathlib.Order.Interval.Finset.Nat
import Mathlib.Tactic.Common

/-!
Intervals of addresses, ascending lists of intervals with gaps in between, and the partition of a
region into free and live intervals.
-/

namespace Extents

structure Extent where
  start : Nat
  len : Nat
deriving DecidableEq, Repr

namespace Extent

def stop (e : Extent) : Nat := e.start + e.len

def Contains (e : Extent) (x : Nat) : Prop := e.start ≤ x ∧ x < e.stop

/-- No address lies in both. -/
def Apart (a b : Extent) : Prop := a.stop ≤ b.start ∨ b.stop ≤ a.start

/-- The extent from the start of `a` as long as both together. -/
def join (a b : Extent) : Extent := ⟨a.start, a.len + b.len⟩

def Within (e region : Extent) : Prop := region.start ≤ e.start ∧ e.stop ≤ region.stop

theorem Apart.symm {a b : Extent} (apart : a.Apart b) : b.Apart a := Or.symm apart

theorem apart_of_disjoint {a b : Extent} (ha : 0 < a.len) (hb : 0 < b.len)
    (disjoint : ∀ x, ¬ (a.Contains x ∧ b.Contains x)) : a.Apart b := by
  have atA := disjoint a.start
  have atB := disjoint b.start
  simp only [Contains, Apart, stop] at *
  omega

theorem Apart.disjoint {a b : Extent} (apart : a.Apart b) (x : Nat) : ¬ (a.Contains x ∧ b.Contains x) := by
  simp only [Contains, Apart, stop] at *
  omega

theorem contains_join {a b : Extent} (meet : a.stop = b.start) (x : Nat) :
    (a.join b).Contains x ↔ a.Contains x ∨ b.Contains x := by
  simp only [Contains, join, stop] at *
  omega

end Extent

open Extent

def Covers (extents : List Extent) (x : Nat) : Prop := ∃ e ∈ extents, e.Contains x

theorem covers_nil (x : Nat) : ¬ Covers [] x := by simp [Covers]

theorem covers_cons (e : Extent) (extents : List Extent) (x : Nat) :
    Covers (e :: extents) x ↔ e.Contains x ∨ Covers extents x := by simp [Covers]

theorem covers_append (left right : List Extent) (x : Nat) :
    Covers (left ++ right) x ↔ Covers left x ∨ Covers right x := by
  simp only [Covers, List.mem_append, or_and_right, exists_or]

def total (extents : List Extent) : Nat := (extents.map Extent.len).sum

@[simp] theorem total_nil : total [] = 0 := rfl

@[simp] theorem total_cons (e : Extent) (extents : List Extent) :
    total (e :: extents) = e.len + total extents := by simp [total]

@[simp] theorem total_append (left right : List Extent) :
    total (left ++ right) = total left + total right := by simp [total]

/-- Ascending, with at least one address between consecutive extents. -/
def Gapped (extents : List Extent) : Prop := extents.Pairwise fun a b => a.stop < b.start

theorem Gapped.order {extents : List Extent} (gapped : Gapped extents) {a b : Extent}
    (ha : a ∈ extents) (hb : b ∈ extents) (ne : a ≠ b) : a.stop < b.start ∨ b.stop < a.start := by
  have either : extents.Pairwise fun a b => a.stop < b.start ∨ b.stop < a.start :=
    gapped.imp fun h => Or.inl h
  have : Std.Symm fun a b : Extent => a.stop < b.start ∨ b.stop < a.start := ⟨fun _ _ => Or.symm⟩
  exact either.forall ha hb ne

theorem gapped_middle {left right : List Extent} {e : Extent} :
    Gapped (left ++ e :: right) ↔ Gapped (left ++ right) ∧
      (∀ a ∈ left, a.stop < e.start) ∧ ∀ b ∈ right, e.stop < b.start := by
  simp only [Gapped, List.pairwise_append, List.pairwise_cons, List.mem_cons]
  constructor
  · rintro ⟨hl, ⟨he, hr⟩, across⟩
    exact ⟨⟨hl, hr, fun a ha b hb => across a ha b (.inr hb)⟩, fun a ha => across a ha e (.inl rfl), he⟩
  · rintro ⟨⟨hl, hr, across⟩, le, er⟩
    refine ⟨hl, ⟨er, hr⟩, ?_⟩
    rintro a ha b (rfl | hb)
    · exact le a ha
    · exact across a ha b hb

/-- An interval of addresses satisfying `P` that cannot be extended on either side. -/
structure MaximalGap (P : Nat → Prop) (e : Extent) : Prop where
  positive : 0 < e.len
  inside : ∀ x, e.Contains x → P x
  below : ∀ y, y + 1 = e.start → ¬ P y
  above : ¬ P e.stop

/-- A gapped list of extents is the list of maximal intervals of the set it covers. -/
theorem Gapped.mem_iff_maximal {extents : List Extent} {P : Nat → Prop} (gapped : Gapped extents)
    (positive : ∀ e ∈ extents, 0 < e.len) (cover : ∀ x, Covers extents x ↔ P x) (e : Extent) :
    e ∈ extents ↔ MaximalGap P e := by
  constructor
  · intro member
    have at_point (y : Nat) (covered : P y) : ∃ a ∈ extents, a.Contains y ∧
        (a = e ∨ a.stop < e.start ∨ e.stop < a.start) := by
      obtain ⟨a, ha, contains⟩ := (cover y).mpr covered
      refine ⟨a, ha, contains, ?_⟩
      by_cases same : a = e
      · exact .inl same
      · exact .inr (gapped.order ha member same)
    refine ⟨positive e member, fun x contains => (cover x).mp ⟨e, member, contains⟩, ?_, ?_⟩
    · intro y next covered
      obtain ⟨a, -, contains, rfl | below | above⟩ := at_point y covered
      all_goals simp only [Contains, stop] at *; omega
    · intro covered
      obtain ⟨a, -, contains, rfl | below | above⟩ := at_point _ covered
      all_goals simp only [Contains, stop] at *; omega
  · intro gap
    have first : e.Contains e.start := ⟨Nat.le_refl _, Nat.lt_add_of_pos_right gap.positive⟩
    obtain ⟨a, member, contains⟩ := (cover e.start).mpr (gap.inside _ first)
    have starts : a.start = e.start := by
      by_contra differ
      refine gap.below (e.start - 1) ?_ ((cover _).mp ⟨a, member, ?_⟩)
      all_goals simp only [Contains, stop] at *; omega
    have notShorter : ¬ a.stop < e.stop := by
      intro shorter
      have insideE : e.Contains a.stop := by
        have := positive a member
        simp only [Contains, stop] at *; omega
      obtain ⟨b, memberB, containsB⟩ := (cover a.stop).mpr (gap.inside _ insideE)
      by_cases same : b = a
      · subst b; simp only [Contains, stop] at *; omega
      · have order := gapped.order memberB member same
        simp only [Contains, stop] at *; omega
    have notLonger : ¬ e.stop < a.stop := by
      intro longer
      refine gap.above ((cover _).mp ⟨a, member, ?_⟩)
      simp only [Contains, stop] at *; omega
    have same : a = e := by
      cases a; cases e
      simp only [stop, Extent.mk.injEq] at *
      omega
    exact same ▸ member

theorem total_le_of_within {extents : List Extent} {lower upper : Nat} (gapped : Gapped extents)
    (order : lower ≤ upper) (within : ∀ e ∈ extents, lower ≤ e.start ∧ e.stop ≤ upper) :
    total extents ≤ upper - lower := by
  induction extents generalizing lower with
  | nil => simp
  | cons e extents ih =>
    obtain ⟨after, rest⟩ := List.pairwise_cons.mp gapped
    have bounds := within e List.mem_cons_self
    have tail : total extents ≤ upper - e.stop := ih rest bounds.2 fun a ha =>
      ⟨Nat.le_of_lt (after a ha), (within a (List.mem_cons_of_mem _ ha)).2⟩
    simp only [total_cons, stop] at *
    omega

theorem length_mul_le_total {extents : List Extent} {least : Nat} (large : ∀ e ∈ extents, least ≤ e.len) :
    extents.length * least ≤ total extents := by
  induction extents with
  | nil => simp
  | cons e extents ih =>
    have head := large e List.mem_cons_self
    have tail := ih fun a ha => large a (List.mem_cons_of_mem _ ha)
    rw [List.length_cons, Nat.add_mul, total_cons]
    omega

/-! ### Inserting an extent, joined with the neighbours it touches -/

def upTo (c : Extent) (extents : List Extent) : List Extent :=
  extents.takeWhile fun e => !decide (c.start < e.start)

def beyond (c : Extent) (extents : List Extent) : List Extent :=
  extents.dropWhile fun e => !decide (c.start < e.start)

/-- `c` joined with the last extent on its left when they touch. -/
def joinLeft (left : List Extent) (c : Extent) : List Extent × Extent :=
  match left.getLast? with
  | none => (left, c)
  | some p => if p.stop = c.start then (left.dropLast, p.join c) else (left, c)

def joinRight (c : Extent) (right : List Extent) : Extent × List Extent :=
  match right with
  | [] => (c, [])
  | n :: rest => if c.stop = n.start then (c.join n, rest) else (c, n :: rest)

/-- The extent that contains `c` after the insertion. -/
def merged (extents : List Extent) (c : Extent) : Extent :=
  (joinRight (joinLeft (upTo c extents) c).2 (beyond c extents)).1

def insertExtent (extents : List Extent) (c : Extent) : List Extent :=
  let l := joinLeft (upTo c extents) c
  let r := joinRight l.2 (beyond c extents)
  l.1 ++ r.1 :: r.2

theorem upTo_append_beyond (c : Extent) (extents : List Extent) :
    upTo c extents ++ beyond c extents = extents := List.takeWhile_append_dropWhile

/-- What an extent list looks like on the two sides of a disjoint extent `c`. -/
structure Split (left right : List Extent) (c : Extent) : Prop where
  gapped : Gapped (left ++ right)
  positive : 0 < c.len
  below : ∀ a ∈ left, a.stop ≤ c.start
  above : ∀ b ∈ right, c.stop ≤ b.start

theorem split_of_apart {extents : List Extent} {c : Extent} (gapped : Gapped extents) (hc : 0 < c.len)
    (positive : ∀ e ∈ extents, 0 < e.len) (apart : ∀ e ∈ extents, e.Apart c) :
    Split (upTo c extents) (beyond c extents) c := by
  have whole := upTo_append_beyond c extents
  have fromLeft : ∀ a ∈ upTo c extents, a ∈ extents := fun a ha => by
    rw [← whole]; exact List.mem_append_left _ ha
  have fromRight : ∀ b ∈ beyond c extents, b ∈ extents := fun b hb => by
    rw [← whole]; exact List.mem_append_right _ hb
  refine ⟨by rwa [whole], hc, ?_, ?_⟩
  · intro a member
    have start := List.mem_takeWhile_imp member
    have disjoint := apart a (fromLeft a member)
    have size := positive a (fromLeft a member)
    simp only [Bool.not_eq_true', decide_eq_false_iff_not, Apart, stop] at *
    omega
  · intro b member
    have split := gapped
    rw [← whole, Gapped, List.pairwise_append] at split
    have start : c.start < b.start := by
      cases right : beyond c extents with
      | nil => rw [right] at member; cases member
      | cons n rest =>
        have first := List.head?_dropWhile_not (fun e => !decide (c.start < e.start)) extents
        rw [show extents.dropWhile (fun e => !decide (c.start < e.start)) = n :: rest from right] at first
        simp only [List.head?_cons, Bool.not_eq_eq_eq_not, Bool.not_false,
          decide_eq_true_eq] at first
        rw [right] at member split
        rcases List.mem_cons.mp member with rfl | later
        · exact first
        · have order := (List.pairwise_cons.mp split.2.1).1 b later
          simp only [stop] at order
          omega
    have disjoint := apart b (fromRight b member)
    simp only [Apart, stop] at *
    omega

section Insertion

variable {left right : List Extent} {c : Extent}

theorem Split.last {init : List Extent} {p : Extent} (split : Split (init.concat p) right c) :
    p.stop ≤ c.start ∧ Gapped (init ++ right) ∧ (∀ a ∈ init, a.stop < p.start) ∧ ∀ a ∈ init, a.stop < c.start := by
  have touch := split.below p (by simp)
  have gapped := split.gapped
  rw [List.concat_eq_append, List.append_assoc, List.singleton_append, gapped_middle] at gapped
  refine ⟨touch, gapped.1, gapped.2.1, fun a ha => ?_⟩
  have before := gapped.2.1 a ha
  simp only [stop] at *
  omega

theorem Split.joinLeft (split : Split left right c) :
    Split (joinLeft left c).1 right (joinLeft left c).2 ∧
      (∀ a ∈ (Extents.joinLeft left c).1, a.stop < (Extents.joinLeft left c).2.start) := by
  rcases List.eq_nil_or_concat left with rfl | ⟨init, p, rfl⟩
  · simpa [Extents.joinLeft] using split
  · obtain ⟨touch, gapped, before, order⟩ := split.last
    by_cases meet : p.stop = c.start
    · simp only [Extents.joinLeft, List.concat_eq_append, List.getLast?_append, List.getLast?_singleton,
        Option.some_or, meet, ite_true, List.dropLast_concat]
      refine ⟨⟨gapped, ?_, ?_, ?_⟩, ?_⟩
      · have := split.positive
        simp only [join]; omega
      · intro a ha
        exact Nat.le_of_lt (before a ha)
      · intro b hb
        have above := split.above b hb
        simp only [join, stop] at *; omega
      · exact before
    · simp only [Extents.joinLeft, List.concat_eq_append, List.getLast?_append, List.getLast?_singleton,
        Option.some_or, meet, ite_false]
      refine ⟨by simpa using split, ?_⟩
      intro a ha
      rcases List.mem_append.mp ha with ha | ha
      · exact order a ha
      · rw [List.mem_singleton.mp ha]; omega

theorem Split.gapped_joinRight (split : Split left right c) (strict : ∀ a ∈ left, a.stop < c.start) :
    Gapped (left ++ (joinRight c right).1 :: (joinRight c right).2) := by
  cases right with
  | nil =>
    have gapped := split.gapped
    rw [List.append_nil] at gapped
    simp only [joinRight, gapped_middle, List.append_nil, gapped, true_and]
    exact ⟨strict, by simp⟩
  | cons n rest =>
    have touch := split.above n List.mem_cons_self
    have gapped := gapped_middle.mp split.gapped
    by_cases meet : c.stop = n.start
    · simp only [joinRight, meet, ite_true, gapped_middle]
      refine ⟨gapped.1, strict, ?_⟩
      intro b hb
      have order := gapped.2.2 b hb
      simp only [join, stop] at *; omega
    · simp only [joinRight, meet, ite_false]
      rw [gapped_middle]
      refine ⟨split.gapped, strict, ?_⟩
      intro b hb
      rcases List.mem_cons.mp hb with rfl | hb
      · omega
      · have order := gapped.2.2 b hb
        simp only [stop] at *; omega

theorem covers_joinLeft (left : List Extent) (c : Extent) (x : Nat) :
    Covers (joinLeft left c).1 x ∨ (joinLeft left c).2.Contains x ↔ Covers left x ∨ c.Contains x := by
  rcases List.eq_nil_or_concat left with rfl | ⟨init, p, rfl⟩
  · simp [joinLeft]
  · by_cases meet : p.stop = c.start
    · simp [joinLeft, meet, covers_append, covers_cons, covers_nil, contains_join meet, or_assoc]
    · simp [joinLeft, meet]

theorem covers_joinRight (c : Extent) (right : List Extent) (x : Nat) :
    (joinRight c right).1.Contains x ∨ Covers (joinRight c right).2 x ↔ c.Contains x ∨ Covers right x := by
  cases right with
  | nil => simp [joinRight]
  | cons n rest =>
    by_cases meet : c.stop = n.start
    · simp [joinRight, meet, covers_cons, contains_join meet, or_assoc]
    · simp [joinRight, meet]

theorem total_joinLeft (left : List Extent) (c : Extent) :
    total (joinLeft left c).1 + (joinLeft left c).2.len = total left + c.len := by
  rcases List.eq_nil_or_concat left with rfl | ⟨init, p, rfl⟩
  · simp [joinLeft]
  · by_cases meet : p.stop = c.start
    · simp [joinLeft, meet, join, Nat.add_assoc]
    · simp [joinLeft, meet]

theorem total_joinRight (c : Extent) (right : List Extent) :
    (joinRight c right).1.len + total (joinRight c right).2 = c.len + total right := by
  cases right with
  | nil => simp [joinRight]
  | cons n rest =>
    by_cases meet : c.stop = n.start
    · simp [joinRight, meet, join, Nat.add_assoc]
    · simp [joinRight, meet]

/-- A property of extents that survives joining holds after the insertion if it held before. -/
theorem forall_insertExtent {P : Extent → Prop} (joined : ∀ a b : Extent, P a → P b → a.stop = b.start → P (a.join b))
    {extents : List Extent} (all : ∀ e ∈ extents, P e) (hc : P c) : ∀ e ∈ insertExtent extents c, P e := by
  have whole := upTo_append_beyond c extents
  have onLeft : ∀ a ∈ upTo c extents, P a := fun a ha => all a (by
    rw [← whole]; exact List.mem_append_left _ ha)
  have onRight : ∀ b ∈ beyond c extents, P b := fun b hb => all b (by
    rw [← whole]; exact List.mem_append_right _ hb)
  have afterLeft : (∀ a ∈ (joinLeft (upTo c extents) c).1, P a) ∧ P (joinLeft (upTo c extents) c).2 := by
    rcases List.eq_nil_or_concat (upTo c extents) with none | ⟨init, p, some⟩
    · rw [none]; exact ⟨by simp [joinLeft], hc⟩
    · rw [some] at onLeft ⊢
      by_cases meet : p.stop = c.start
      · simp only [joinLeft, List.concat_eq_append, List.getLast?_append, List.getLast?_singleton,
          Option.some_or, meet, ite_true, List.dropLast_concat]
        exact ⟨fun a ha => onLeft a (by simp [ha]), joined _ _ (onLeft p (by simp)) hc meet⟩
      · simpa [joinLeft, meet, hc] using onLeft
  intro e member
  simp only [insertExtent, List.mem_append, List.mem_cons] at member
  generalize (joinLeft (upTo c extents) c).2 = middle at afterLeft member
  cases right : beyond c extents with
  | nil =>
    rw [right] at member
    rcases member with member | rfl | member
    · exact afterLeft.1 e member
    · exact afterLeft.2
    · cases member
  | cons n rest =>
    rw [right] at member onRight
    by_cases meet : middle.stop = n.start
    · simp only [joinRight, meet, ite_true] at member
      rcases member with member | rfl | member
      · exact afterLeft.1 e member
      · exact joined _ _ afterLeft.2 (onRight n List.mem_cons_self) meet
      · exact onRight e (List.mem_cons_of_mem _ member)
    · simp only [joinRight, meet, ite_false] at member
      rcases member with member | rfl | member
      · exact afterLeft.1 e member
      · exact afterLeft.2
      · exact onRight e member

variable {extents : List Extent}

theorem gapped_insertExtent (gapped : Gapped extents) (hc : 0 < c.len) (positive : ∀ e ∈ extents, 0 < e.len)
    (apart : ∀ e ∈ extents, e.Apart c) : Gapped (insertExtent extents c) := by
  have split := split_of_apart gapped hc positive apart
  exact split.joinLeft.1.gapped_joinRight split.joinLeft.2

theorem covers_insertExtent (extents : List Extent) (c : Extent) (x : Nat) :
    Covers (insertExtent extents c) x ↔ Covers extents x ∨ c.Contains x := by
  have whole := covers_append (upTo c extents) (beyond c extents) x
  rw [upTo_append_beyond] at whole
  rw [insertExtent, covers_append, covers_cons, covers_joinRight, ← or_assoc, covers_joinLeft, whole]
  tauto

theorem total_insertExtent (extents : List Extent) (c : Extent) :
    total (insertExtent extents c) = total extents + c.len := by
  have whole := total_append (upTo c extents) (beyond c extents)
  have onLeft := total_joinLeft (upTo c extents) c
  have onRight := total_joinRight (joinLeft (upTo c extents) c).2 (beyond c extents)
  rw [upTo_append_beyond] at whole
  simp only [insertExtent, total_append, total_cons]
  omega

/-- The list `extents'` is `extents` with `c` at its place in address order and `e` the member that holds it:
    one extent with the predecessor `p` and the successor `n` that touch it, the others at a distance. -/
structure Inserted (c : Extent) (extents left : List Extent) (p n : Option Extent) (right extents' : List Extent)
    (e : Extent) : Prop where
  before : extents = left ++ p.toList ++ n.toList ++ right
  after : extents' = left ++ e :: right
  below : ∀ a ∈ left, a.stop < c.start
  above : ∀ b ∈ right, c.stop < b.start
  touches : ∀ a ∈ p, a.stop = c.start
  touched : ∀ b ∈ n, c.stop = b.start
  first : e.start = p.elim c.start Extent.start
  size : e.len = total p.toList + c.len + total n.toList

theorem Inserted.mem {extents' : List Extent} {p n : Option Extent} {e : Extent}
    (inserted : Inserted c extents left p n right extents' e) : e ∈ extents' := by
  rw [inserted.after]
  simp

theorem Inserted.within {extents' : List Extent} {p n : Option Extent} {e : Extent}
    (inserted : Inserted c extents left p n right extents' e) : c.Within e := by
  have first := inserted.first
  have size := inserted.size
  cases p with
  | none =>
    simp only [Option.elim_none, Option.toList_none, total_nil] at first size
    simp only [Within, stop]
    omega
  | some p =>
    have touch := inserted.touches p rfl
    simp only [Option.elim_some, Option.toList_some, total_cons, total_nil] at first size
    simp only [Within, stop] at *
    omega

/-- The last extent on the left is the one `joinLeft` takes exactly when it touches. -/
theorem Split.joinLeft_eq (split : Split left right c) : ∃ (init : List Extent) (p : Option Extent),
    left = init ++ p.toList ∧ Extents.joinLeft left c = (init, ⟨p.elim c.start Extent.start, total p.toList + c.len⟩) ∧
      (∀ a ∈ init, a.stop < c.start) ∧ ∀ a ∈ p, a.stop = c.start := by
  rcases List.eq_nil_or_concat left with rfl | ⟨init, p, rfl⟩
  · exact ⟨[], none, by simp, by simp [Extents.joinLeft], by simp, by simp⟩
  · obtain ⟨touch, -, -, order⟩ := split.last
    by_cases meet : p.stop = c.start
    · exact ⟨init, some p, by simp, by simp [Extents.joinLeft, meet, join], order, by simpa using meet⟩
    · refine ⟨init.concat p, none, by simp, by simp [Extents.joinLeft, meet], ?_, by simp⟩
      intro a ha
      rw [List.concat_eq_append] at ha
      rcases List.mem_append.mp ha with ha | ha
      · exact order a ha
      · rw [List.mem_singleton.mp ha]
        omega

theorem Split.joinRight_eq (split : Split left right c) {e : Extent} (same : e.stop = c.stop) :
    ∃ (n : Option Extent) (rest : List Extent),
      right = n.toList ++ rest ∧ joinRight e right = (⟨e.start, e.len + total n.toList⟩, rest) ∧
        (∀ b ∈ rest, c.stop < b.start) ∧ ∀ b ∈ n, c.stop = b.start := by
  cases right with
  | nil => exact ⟨none, [], by simp, by simp [joinRight], by simp, by simp⟩
  | cons n rest =>
    have touch := split.above n List.mem_cons_self
    have gapped := gapped_middle.mp split.gapped
    by_cases meet : c.stop = n.start
    · refine ⟨some n, rest, by simp, by simp [joinRight, same, meet, join], ?_, by simpa using meet⟩
      intro b hb
      have order := gapped.2.2 b hb
      simp only [stop] at *
      omega
    · refine ⟨none, n :: rest, by simp, by simp [joinRight, same, meet], ?_, by simp⟩
      intro b hb
      rcases List.mem_cons.mp hb with rfl | hb
      · omega
      · have order := gapped.2.2 b hb
        simp only [stop] at *
        omega

theorem insertExtent_inserted (gapped : Gapped extents) (hc : 0 < c.len) (positive : ∀ e ∈ extents, 0 < e.len)
    (apart : ∀ e ∈ extents, e.Apart c) :
    ∃ left p n right, Inserted c extents left p n right (insertExtent extents c) (merged extents c) := by
  have split := split_of_apart gapped hc positive apart
  have whole := upTo_append_beyond c extents
  obtain ⟨init, p, atLeft, joinedLeft, below, touches⟩ := split.joinLeft_eq
  have same : (⟨p.elim c.start Extent.start, total p.toList + c.len⟩ : Extent).stop = c.stop := by
    cases p with
    | none => simp [stop]
    | some p =>
      have touch := touches p rfl
      simp only [Option.elim_some, Option.toList_some, total_cons, total_nil, stop] at *
      omega
  obtain ⟨n, rest, atRight, joinedRight, above, touched⟩ := split.joinRight_eq same
  refine ⟨init, p, n, rest, ?_⟩
  constructor
  case before => rw [← whole, atLeft, atRight, List.append_assoc, List.append_assoc, List.append_assoc]
  case after => rw [insertExtent, merged, joinedLeft, joinedRight]
  case below => exact below
  case above => exact above
  case touches => exact touches
  case touched => exact touched
  case first => rw [merged, joinedLeft, joinedRight]
  case size => rw [merged, joinedLeft, joinedRight]

end Insertion

/-! ### Free and live extents, none overlapping another -/

structure Separate (free live : List Extent) : Prop where
  gapped : Gapped free
  apart : live.Pairwise Apart
  across : ∀ e ∈ free, ∀ c ∈ live, e.Apart c

section Separation

variable {taken c : Extent} {free free' live left right : List Extent}

theorem Separate.allot (separate : Separate free live) (gapped : Gapped free') (apart : ∀ e ∈ free', e.Apart taken)
    (cover : ∀ x, Covers free x ↔ taken.Contains x ∨ Covers free' x) (positive : 0 < taken.len)
    (free_positive : ∀ e ∈ free', 0 < e.len) (live_positive : ∀ c ∈ live, 0 < c.len) :
    Separate free' (taken :: live) := by
  have off (x : Nat) (covered : Covers free x) (c : Extent) (member : c ∈ live) : ¬ c.Contains x := by
    obtain ⟨e, he, contains⟩ := covered
    intro inside
    exact (separate.across e he c member).disjoint x ⟨contains, inside⟩
  constructor
  case gapped => exact gapped
  case apart =>
    rw [List.pairwise_cons]
    refine ⟨fun c member => ?_, separate.apart⟩
    apply apart_of_disjoint positive (live_positive c member)
    intro x both
    exact off x ((cover x).mpr (.inl both.1)) c member both.2
  case across =>
    intro e he c member
    rcases List.mem_cons.mp member with rfl | member
    · exact apart e he
    · apply apart_of_disjoint (free_positive e he) (live_positive c member)
      intro x both
      exact off x ((cover x).mpr (.inr ⟨e, he, both.1⟩)) c member both.2

theorem Separate.insert (separate : Separate free live) (offFree : ∀ e ∈ free, e.Apart c)
    (offLive : ∀ a ∈ live, c.Apart a) (positive : 0 < c.len) (free_positive : ∀ e ∈ free, 0 < e.len)
    (live_positive : ∀ a ∈ live, 0 < a.len) : Separate (insertExtent free c) live := by
  have inserted : ∀ e ∈ insertExtent free c, 0 < e.len := by
    apply forall_insertExtent (P := fun e => 0 < e.len) _ free_positive positive
    intro a b ha hb _
    simp only [join]
    omega
  constructor
  case gapped => exact gapped_insertExtent separate.gapped positive free_positive offFree
  case apart => exact separate.apart
  case across =>
    intro e he a ha
    apply apart_of_disjoint (inserted e he) (live_positive a ha)
    intro x both
    rcases (covers_insertExtent free c x).mp ⟨e, he, both.1⟩ with covered | contains
    · obtain ⟨b, hb, atB⟩ := covered
      exact (separate.across b hb a ha).disjoint x ⟨atB, both.2⟩
    · exact (offLive a ha).disjoint x ⟨contains, both.2⟩

theorem Separate.drop (separate : Separate free (left ++ c :: right)) : Separate free (left ++ right) := by
  have sub : (left ++ right).Sublist (left ++ c :: right) := (List.sublist_cons_self c right).append_left left
  exact ⟨separate.gapped, separate.apart.sublist sub, fun e he a ha => separate.across e he a (sub.subset ha)⟩

theorem Separate.middle (separate : Separate free (left ++ c :: right)) : ∀ a ∈ left ++ right, c.Apart a := by
  have apart := List.pairwise_append.mp separate.apart
  intro a ha
  rcases List.mem_append.mp ha with ha | ha
  · exact (apart.2.2 a ha c List.mem_cons_self).symm
  · exact (List.pairwise_cons.mp apart.2.1).1 a ha

end Separation

/-! ### A region split into free and live extents -/

structure Partition (region : Extent) (free live : List Extent) : Prop where
  gapped : Gapped free
  apart : live.Pairwise Apart
  across : ∀ e ∈ free, ∀ c ∈ live, e.Apart c
  cover : ∀ x, region.Contains x ↔ Covers free x ∨ Covers live x

section Partitions

variable {region : Extent} {free live : List Extent}

/-- The free list is the list of maximal gaps between live extents. -/
theorem Partition.mem_iff_gap (partition : Partition region free live) (positive : ∀ e ∈ free, 0 < e.len)
    (e : Extent) : e ∈ free ↔ MaximalGap (fun x => region.Contains x ∧ ¬ Covers live x) e := by
  apply partition.gapped.mem_iff_maximal positive
  intro x
  constructor
  · intro covered
    refine ⟨(partition.cover x).mpr (.inl covered), ?_⟩
    obtain ⟨a, ha, atA⟩ := covered
    intro covered'
    obtain ⟨b, hb, atB⟩ := covered'
    exact (partition.across a ha b hb).disjoint x ⟨atA, atB⟩
  · intro inside
    exact ((partition.cover x).mp inside.1).resolve_right inside.2

theorem Partition.separate (partition : Partition region free live) : Separate free live :=
  ⟨partition.gapped, partition.apart, partition.across⟩

theorem Separate.partition (separate : Separate free live)
    (cover : ∀ x, region.Contains x ↔ Covers free x ∨ Covers live x) : Partition region free live :=
  ⟨separate.gapped, separate.apart, separate.across, cover⟩

end Partitions

/-! ### Counting -/

section Counting

variable {extents : List Extent} {region : Extent}

def addresses (extents : List Extent) : Finset Nat :=
  extents.foldr (fun e rest => Finset.Ico e.start e.stop ∪ rest) ∅

theorem mem_addresses (x : Nat) : x ∈ addresses extents ↔ Covers extents x := by
  induction extents with
  | nil => simp [addresses, Covers]
  | cons e extents ih =>
    rw [addresses, List.foldr_cons, Finset.mem_union, Finset.mem_Ico, covers_cons]
    exact or_congr Iff.rfl ih

theorem card_addresses (apart : extents.Pairwise Apart) : (addresses extents).card = total extents := by
  induction extents with
  | nil => rfl
  | cons e extents ih =>
    obtain ⟨first, rest⟩ := List.pairwise_cons.mp apart
    have disjoint : Disjoint (Finset.Ico e.start e.stop) (addresses extents) := by
      rw [Finset.disjoint_left]
      intro x inside covered
      obtain ⟨c, member, contains⟩ := (mem_addresses x).mp covered
      exact (first c member).disjoint x ⟨Finset.mem_Ico.mp inside, contains⟩
    have length : e.stop - e.start = e.len := Nat.add_sub_cancel_left _ _
    rw [total_cons, ← ih rest, ← length, ← Nat.card_Ico, ← Finset.card_union_of_disjoint disjoint]
    rfl

/-- Extents that divide a region are as long as it, all together. -/
theorem total_of_cover (apart : extents.Pairwise Apart) (cover : ∀ x, region.Contains x ↔ Covers extents x) :
    total extents = region.len := by
  have same : addresses extents = addresses [region] := by
    ext x
    rw [mem_addresses, mem_addresses, ← cover x]
    simp [Covers]
  rw [← card_addresses apart, same, card_addresses (List.pairwise_singleton _ _)]
  simp

end Counting

end Extents
