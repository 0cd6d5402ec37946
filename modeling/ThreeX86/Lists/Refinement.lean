import Mathlib.Data.List.Induction
import Mathlib.Logic.Function.Basic
import ThreeX86.Lists.List
import ThreeX86.Machine.Memory
import ThreeX86.Machine.Run

/-!
The lists of `include/list.h` against sequences of nodes: any number of heads, any sequence of operations.
-/

namespace ThreeX86.Lists

open Linked Linked.NodeStore Transition Machine

/-! ### Sequences -/

/-- What the heads stand for. `dropped` items were members of a list that has been initialized again since. -/
structure Sequences (α : Type) where
  lists : α → Option (List α)
  dropped : α → Prop

def Sequences.none {α : Type} : Sequences α := ⟨fun _ => Option.none, fun _ => False⟩

def Sequences.Member {α : Type} (q : Sequences α) (x : α) : Prop := ∃ list items, q.lists list = some items ∧ x ∈ items

inductive ListOp (α : Type) where
  | init (list : α)
  | addHead (list item : α)
  | addTail (list item : α)
  | addBefore (entry newEntry : α)
  | addAfter (entry newEntry : α)
  | delete (item : α)
  | removeHead (list : α)
  | removeTail (list : α)

section

variable {α : Type} [DecidableEq α]

def insertBefore (entry newEntry : α) : List α → List α
  | [] => []
  | x :: items => if x = entry then newEntry :: x :: items else x :: insertBefore entry newEntry items

def insertAfter (entry newEntry : α) : List α → List α
  | [] => []
  | x :: items => if x = entry then x :: newEntry :: items else x :: insertAfter entry newEntry items

namespace ListOp

/-- The operation on sequences, and the item it returns. -/
def apply (q : Sequences α) : ListOp α → Option α × Sequences α
  | .init list =>
    (none, ⟨Function.update q.lists list (some []), fun x => q.dropped x ∨ ∃ items, q.lists list = some items ∧ x ∈ items⟩)
  | .addHead list item =>
    (none, ⟨Function.update q.lists list ((q.lists list).map (item :: ·)), fun x => q.dropped x ∧ x ≠ item⟩)
  | .addTail list item =>
    (none, ⟨Function.update q.lists list ((q.lists list).map (· ++ [item])), fun x => q.dropped x ∧ x ≠ item⟩)
  | .addBefore entry newEntry =>
    (none, ⟨fun list => (q.lists list).map (insertBefore entry newEntry), fun x => q.dropped x ∧ x ≠ newEntry⟩)
  | .addAfter entry newEntry =>
    (none, ⟨fun list => (q.lists list).map (insertAfter entry newEntry), fun x => q.dropped x ∧ x ≠ newEntry⟩)
  | .delete item => (none, ⟨fun list => (q.lists list).map (·.erase item), q.dropped⟩)
  | .removeHead list =>
    ((q.lists list).bind List.head?, ⟨Function.update q.lists list ((q.lists list).map List.tail), q.dropped⟩)
  | .removeTail list =>
    ((q.lists list).bind List.getLast?, ⟨Function.update q.lists list ((q.lists list).map List.dropLast), q.dropped⟩)

/-- The operation of `list.h`, and what it returns. -/
def perform {σ : Type} [NodeStore σ α] (s : σ) : ListOp α → α × σ
  | .init list => (null σ, listInitialize s list)
  | .addHead list item => (null σ, listAddHead s list item)
  | .addTail list item => (null σ, listAddTail s list item)
  | .addBefore entry newEntry => (null σ, listAddBefore s entry newEntry)
  | .addAfter entry newEntry => (null σ, listAddAfter s entry newEntry)
  | .delete item => (null σ, listDelete s item)
  | .removeHead list => listRemoveHead s list
  | .removeTail list => listRemoveTail s list

/-- The nodes whose pointers may change: those of the list concerned, and the new item. -/
def Touches (q : Sequences α) (x : α) : ListOp α → Prop
  | .init list => x = list
  | .addHead list item | .addTail list item => x = item ∨ ∃ items, q.lists list = some items ∧ x ∈ list :: items
  | .addBefore entry newEntry | .addAfter entry newEntry =>
    x = newEntry ∨ ∃ list items, q.lists list = some items ∧ entry ∈ items ∧ x ∈ list :: items
  | .delete item => ∃ list items, q.lists list = some items ∧ item ∈ items ∧ x ∈ list :: items
  | .removeHead list | .removeTail list => ∃ items, q.lists list = some items ∧ x ∈ list :: items

end ListOp

variable {σ : Type} [NodeStore σ α] (isHead : α → Prop)

/-- A node that may be inserted: an item in no list. -/
structure Fresh (null : α) (q : Sequences α) (item : α) : Prop where
  isItem : ¬ isHead item
  nonnull : item ≠ null
  notMember : ¬ q.Member item

def ListOp.Allowed (null : α) (q : Sequences α) : ListOp α → Prop
  | .init list => isHead list
  | .addHead list item | .addTail list item => q.lists list ≠ none ∧ Fresh isHead null q item
  | .addBefore entry newEntry | .addAfter entry newEntry => q.Member entry ∧ Fresh isHead null q newEntry
  | .delete item => q.Member item
  | .removeHead list | .removeTail list => q.lists list ≠ none

def Cleared (s : σ) (x : α) : Prop := prev s x = null σ ∧ next s x = null σ

structure Refines (q : Sequences α) (s : σ) : Prop where
  ring : ∀ list items, q.lists list = some items → Ring s list items
  head : ∀ list items, q.lists list = some items → isHead list
  item : ∀ x, q.Member x → ¬ isHead x ∧ x ≠ null σ
  apart : ∀ list list' items items' x, q.lists list = some items → q.lists list' = some items' → x ∈ items → x ∈ items' →
    list = list'
  cleared : ∀ x, ¬ isHead x → ¬ q.Member x → ¬ q.dropped x → Cleared s x
  dropped : ∀ x, q.dropped x → ¬ isHead x ∧ ¬ q.Member x ∧ ¬ Cleared s x

def Step (state : σ × Sequences α) (op : ListOp α) (state' : σ × Sequences α) : Prop :=
  op.Allowed isHead (null σ) state.2 ∧ state' = ((op.perform state.1).2, (op.apply state.2).2)

/-- The nodes met from `x` on, up to the head. -/
def traverse (step : α → α) (list : α) : Nat → α → Option (List α)
  | 0, _ => none
  | fuel + 1, x => if x = list then some [] else (traverse step list fuel (step x)).map (x :: ·)

/-- What the store shows of the sequences. -/
structure Shows (q : Sequences α) (s : σ) : Prop where
  wellFormed : ∀ list items x, q.lists list = some items → x ∈ list :: items → prev s (next s x) = x ∧ next s (prev s x) = x
  forward : ∀ list items fuel, q.lists list = some items → items.length < fuel →
    traverse (next s) list fuel (next s list) = some items
  backward : ∀ list items fuel, q.lists list = some items → items.length < fuel →
    traverse (prev s) list fuel (prev s list) = some items.reverse
  inList : ∀ x, ¬ isHead x → (listInList s x = true ↔ q.Member x ∨ q.dropped x)
  neighbours : ∀ list left item right, q.lists list = some (left ++ item :: right) →
    listNext s list item = right.headD (null σ) ∧ listPrev s list item = left.getLastD (null σ) ∧
    listNextWrap s list item = (right ++ left ++ [item]).headD item ∧
    listPrevWrap s list item = (item :: right ++ left).getLastD item

/-- The operation does to the store what it does to the sequences, and nothing to any other node. -/
structure Simulates (q : Sequences α) (s : σ) (op : ListOp α) : Prop where
  result : (op.perform s).1 = (op.apply q).1.getD (null σ)
  refines : Refines isHead (op.apply q).2 (op.perform s).2
  frame : ∀ x, ¬ op.Touches q x → prev (op.perform s).2 x = prev s x ∧ next (op.perform s).2 x = next s x

variable {isHead} {q : Sequences α} {s s' : σ} {list : α} {items items' left right : List α} {x : α}

/-! ### What rings show -/

theorem ring_traverse_next (ring : Ring s list (left ++ right)) (fuel : Nat) (enough : right.length < fuel) :
    traverse (next s) list fuel (right.headD list) = some right := by
  induction right generalizing left fuel with
  | nil =>
    cases fuel with
    | zero => exact absurd enough (Nat.not_lt_zero _)
    | succ fuel => rw [traverse, List.headD_nil, if_pos rfl]
  | cons x right ih =>
    cases fuel with
    | zero => exact absurd enough (Nat.not_lt_zero _)
    | succ fuel =>
      have notHead : x ≠ list := by
        intro same
        exact ring.head_not_mem (by simp [same])
      have regrouped : Ring s list ((left ++ [x]) ++ right) := by simpa using ring
      rw [traverse, List.headD_cons, if_neg notHead, ring_next ring, ih regrouped fuel (by simpa using enough)]
      rfl

theorem ring_traverse_prev (ring : Ring s list (left ++ right)) (fuel : Nat) (enough : left.length < fuel) :
    traverse (prev s) list fuel (left.getLastD list) = some left.reverse := by
  induction left using List.reverseRecOn generalizing right fuel with
  | nil =>
    cases fuel with
    | zero => exact absurd enough (Nat.not_lt_zero _)
    | succ fuel => rw [traverse, List.getLastD_nil, if_pos rfl]; rfl
  | append_singleton left x ih =>
    cases fuel with
    | zero => exact absurd enough (Nat.not_lt_zero _)
    | succ fuel =>
      have notHead : x ≠ list := by
        intro same
        exact ring.head_not_mem (by simp [same])
      have regrouped : Ring s list (left ++ x :: right) := by simpa using ring
      rw [traverse, List.getLastD_concat, if_neg notHead, ring_prev regrouped, ih regrouped fuel (by simpa using enough),
        List.reverse_append]
      rfl

omit [DecidableEq α] in
theorem ring_prev_next (ring : Ring s list (left ++ right)) :
    prev s (right.headD list) = left.getLastD list ∧ next s (left.getLastD list) = right.headD list := by
  constructor
  · cases right with
    | nil =>
      rw [List.append_nil] at ring
      exact ring_prev_head ring
    | cons x right => exact ring_prev ring
  · induction left using List.reverseRecOn with
    | nil => exact ring_next_head ring
    | append_singleton left x _ =>
      rw [List.getLastD_concat]
      rw [List.append_assoc, List.singleton_append] at ring
      exact ring_next ring

omit [DecidableEq α] in
theorem ring_wellFormed (ring : Ring s list items) (member : x ∈ list :: items) :
    prev s (next s x) = x ∧ next s (prev s x) = x := by
  cases List.mem_cons.mp member with
  | inl atHead =>
    subst atHead
    have first := ring_prev_next (show Ring s x ([] ++ items) from ring)
    have last := ring_prev_next (show Ring s x (items ++ []) by rwa [List.append_nil])
    rw [ring_next_head ring, ring_prev_head ring]
    exact ⟨first.1, last.2⟩
  | inr inside =>
    obtain ⟨left, right, rfl⟩ := List.append_of_mem inside
    have before := ring_prev_next ring
    have after := ring_prev_next (show Ring s list ((left ++ [x]) ++ right) by simpa using ring)
    rw [List.getLastD_concat] at after
    rw [ring_next ring, ring_prev ring]
    exact ⟨after.1, before.2⟩

theorem ring_next_wrap (ring : Ring s list (left ++ x :: right)) (notList : list ∉ left ++ x :: right) :
    listNext s list x = right.headD (null σ) ∧ listNextWrap s list x = (right ++ left ++ [x]).headD x := by
  have first := ring_next_head ring
  unfold listNext listNextWrap
  rw [ring_next ring]
  cases right with
  | nil =>
    rw [List.headD_nil, List.headD_nil, first, List.nil_append]
    have notHead : (left ++ [x]).headD list ≠ list := by
      intro same
      apply notList
      rw [← same]
      cases left <;> simp
    refine ⟨if_neg (not_not.mpr rfl), ?_⟩
    rw [if_neg (not_not.mpr rfl), if_pos notHead]
    cases left <;> rfl
  | cons y right =>
    have notHead : y ≠ list := by
      intro same
      exact notList (by simp [same])
    exact ⟨if_pos notHead, if_pos notHead⟩

theorem ring_prev_wrap (ring : Ring s list (left ++ x :: right)) (notList : list ∉ left ++ x :: right) :
    listPrev s list x = left.getLastD (null σ) ∧ listPrevWrap s list x = (x :: right ++ left).getLastD x := by
  have last := ring_prev_head ring
  unfold listPrev listPrevWrap
  rw [ring_prev ring]
  induction left using List.reverseRecOn with
  | nil =>
    rw [List.getLastD_nil, List.getLastD_nil, last, List.nil_append, List.append_nil]
    have notHead : (x :: right).getLastD list ≠ list := by
      intro same
      have member := List.getLast_mem (List.cons_ne_nil x right)
      rw [List.getLastD_eq_getLast?, List.getLast?_eq_some_getLast (List.cons_ne_nil x right), Option.getD_some] at same
      exact notList (same ▸ member)
    refine ⟨if_neg (not_not.mpr rfl), ?_⟩
    rw [if_neg (not_not.mpr rfl), if_pos notHead, List.getLastD_cons, List.getLastD_cons]
  | append_singleton left y _ =>
    have notHead : y ≠ list := by
      intro same
      exact notList (by simp [same])
    rw [List.getLastD_concat, List.getLastD_concat, ← List.append_assoc, List.getLastD_concat]
    exact ⟨if_pos notHead, if_pos notHead⟩

/-! ### Refinement -/

omit [DecidableEq α] in
theorem Refines.not_cleared (refines : Refines isHead q s) (nonnull : ¬ isHead (null σ)) (member : q.Member x) :
    ¬ Cleared s x := by
  obtain ⟨list, items, at_, inside⟩ := member
  have ring := refines.ring list items at_
  have head := refines.head list items at_
  intro cleared
  have around := ring.next_mem (List.mem_cons_of_mem list inside)
  rw [cleared.2] at around
  cases List.mem_cons.mp around with
  | inl same => exact nonnull (same ▸ head)
  | inr later => exact (refines.item _ ⟨list, items, at_, later⟩).2 rfl

theorem listInList_iff (s : σ) (x : α) : listInList s x = true ↔ ¬ Cleared s x := by
  unfold listInList Cleared
  split
  · next cleared => exact iff_of_false (by decide) (not_not.mpr cleared)
  · next linked => exact iff_of_true rfl linked

theorem Refines.shows (refines : Refines isHead q s) (nonnull : ¬ isHead (null σ)) : Shows isHead q s := by
  constructor
  case wellFormed =>
    intro list items x at_ member
    exact ring_wellFormed (refines.ring list items at_) member
  case forward =>
    intro list items fuel at_ enough
    have ring := refines.ring list items at_
    rw [ring_next_head ring]
    exact ring_traverse_next (show Ring s list ([] ++ items) from ring) fuel enough
  case backward =>
    intro list items fuel at_ enough
    have ring := refines.ring list items at_
    rw [ring_prev_head ring]
    exact ring_traverse_prev (show Ring s list (items ++ []) by rwa [List.append_nil]) fuel enough
  case inList =>
    intro x isItem
    rw [listInList_iff]
    constructor
    · intro linked
      by_contra unknown
      obtain ⟨notMember, notDropped⟩ := not_or.mp unknown
      exact linked (refines.cleared x isItem notMember notDropped)
    · intro known
      cases known with
      | inl member => exact refines.not_cleared nonnull member
      | inr dropped => exact (refines.dropped x dropped).2.2
  case neighbours =>
    intro list left item right at_
    have ring := refines.ring list _ at_
    have forward := ring_next_wrap ring ring.head_not_mem
    have backward := ring_prev_wrap ring ring.head_not_mem
    exact ⟨forward.1, backward.1, forward.2, backward.2⟩

theorem update_cases {lists : α → Option (List α)} {l : α} {its : List α}
    (found : Function.update lists list (some items') l = some its) :
    (l = list ∧ its = items') ∨ (l ≠ list ∧ lists l = some its) := by
  by_cases same : l = list
  · subst same
    rw [Function.update_self] at found
    exact Or.inl ⟨rfl, (Option.some.inj found).symm⟩
  · rw [Function.update_of_ne same] at found
    exact Or.inr ⟨same, found⟩

theorem member_update (list : α) (items' : List α) (dropped' : α → Prop) (member : q.Member x) :
    (∃ items, q.lists list = some items ∧ x ∈ items) ∨
      Sequences.Member ⟨Function.update q.lists list (some items'), dropped'⟩ x := by
  obtain ⟨l, its, found, inside⟩ := member
  by_cases same : l = list
  · exact Or.inl ⟨its, same ▸ found, inside⟩
  · exact Or.inr ⟨l, its, (Function.update_of_ne same ..).trans found, inside⟩

omit [DecidableEq α] in
theorem cleared_iff (kept : prev s' x = prev s x ∧ next s' x = next s x) : Cleared s' x ↔ Cleared s x := by
  rw [Cleared, Cleared, kept.1, kept.2]

section

variable {l : α} {its : List α}

omit [DecidableEq α] in
theorem Refines.ne_head (refines : Refines isHead q s) (head : isHead list) (ne : l ≠ list) (found : q.lists l = some its)
    (member : x ∈ l :: its) : x ≠ list := by
  intro same
  subst same
  cases List.mem_cons.mp member with
  | inl same => exact ne same.symm
  | inr inside => exact (refines.item x ⟨l, its, found, inside⟩).1 head

omit [DecidableEq α] in
theorem Refines.off_list (refines : Refines isHead q s) (at_ : q.lists list = some items) (ne : l ≠ list)
    (found : q.lists l = some its) (member : x ∈ l :: its) : x ∉ list :: items := by
  intro both
  have notHead : x ≠ list := refines.ne_head (refines.head list items at_) ne found member
  have inside := (List.mem_cons.mp both).resolve_left notHead
  cases List.mem_cons.mp member with
  | inl same =>
    subst same
    exact (refines.item x ⟨list, items, at_, inside⟩).1 (refines.head x its found)
  | inr here => exact ne (refines.apart l list its items x found at_ here inside)

theorem Refines.rings (refines : Refines isHead q s) (head : isHead list) (ring' : Ring s' list items')
    (kept : ∀ l its, l ≠ list → q.lists l = some its → ∀ x ∈ l :: its, prev s' x = prev s x ∧ next s' x = next s x)
    (found : Function.update q.lists list (some items') l = some its) : Ring s' l its ∧ isHead l := by
  cases update_cases found with
  | inl here =>
    rw [here.1, here.2]
    exact ⟨ring', head⟩
  | inr elsewhere =>
    have same := kept l its elsewhere.1 elsewhere.2
    have ring := refines.ring l its elsewhere.2
    exact ⟨ring.transport (fun x member => (same x member).2) fun x member => (same x member).1,
      refines.head l its elsewhere.2⟩

end

/-- One list is changed, and the items that join or leave it. -/
theorem Refines.edit (refines : Refines isHead q s) (at_ : q.lists list = some items) (joining : List α)
    {dropped' : α → Prop} (ring' : Ring s' list items') (members : ∀ x ∈ items', x ∈ items ∨ x ∈ joining)
    (fresh : ∀ x ∈ joining, Fresh isHead (null σ) q x ∧ x ∈ items')
    (leaving : ∀ x ∈ items, x ∉ items' → Cleared s' x)
    (frame : ∀ x, x ∉ list :: items → x ∉ joining → prev s' x = prev s x ∧ next s' x = next s x)
    (dropping : ∀ x, dropped' x ↔ q.dropped x ∧ x ∉ joining) :
    Refines isHead ⟨Function.update q.lists list (some items'), dropped'⟩ s' := by
  have head := refines.head list items at_
  have notJoining {l : α} {its : List α} (found : q.lists l = some its) {x : α} (member : x ∈ l :: its) :
      x ∉ joining := by
    intro joins
    cases List.mem_cons.mp member with
    | inl same => exact (fresh x joins).1.isItem (same ▸ refines.head l its found)
    | inr inside => exact (fresh x joins).1.notMember ⟨l, its, found, inside⟩
  -- What another list keeps apart from this one and its new items.
  have other {l : α} {its : List α} (ne : l ≠ list) (found : q.lists l = some its) {x : α} (inside : x ∈ its) :
      x ∉ items' := by
    intro both
    have member := List.mem_cons_of_mem l inside
    cases members x both with
    | inl here => exact refines.off_list at_ ne found member (List.mem_cons_of_mem list here)
    | inr joins => exact notJoining found member joins
  have rings {l : α} {its : List α} (found : Function.update q.lists list (some items') l = some its) :=
    refines.rings head ring' (fun l its ne found x member =>
      frame x (refines.off_list at_ ne found member) (notJoining found member)) found
  constructor
  case ring => exact fun l its found => (rings found).1
  case head => exact fun l its found => (rings found).2
  case item =>
    intro x ⟨l, its, found, inside⟩
    cases update_cases found with
    | inl here =>
      rw [here.2] at inside
      cases members x inside with
      | inl before => exact refines.item x ⟨list, items, at_, before⟩
      | inr joins => exact ⟨(fresh x joins).1.isItem, (fresh x joins).1.nonnull⟩
    | inr elsewhere => exact refines.item x ⟨l, its, elsewhere.2, inside⟩
  case apart =>
    intro l l' its its' x found found' inside inside'
    cases update_cases found with
    | inl here =>
      cases update_cases found' with
      | inl here' => exact here.1.trans here'.1.symm
      | inr elsewhere' =>
        rw [here.2] at inside
        exact absurd inside (other elsewhere'.1 elsewhere'.2 inside')
    | inr elsewhere =>
      cases update_cases found' with
      | inl here' =>
        rw [here'.2] at inside'
        exact absurd inside' (other elsewhere.1 elsewhere.2 inside)
      | inr elsewhere' => exact refines.apart l l' its its' x elsewhere.2 elsewhere'.2 inside inside'
  case cleared =>
    intro x isItem notMember notDropped
    have outside : x ∉ items' := by
      intro inside
      exact notMember ⟨list, items', Function.update_self .., inside⟩
    by_cases before : x ∈ items
    · exact leaving x before outside
    · have stays : x ∉ joining := fun joins => outside (fresh x joins).2
      have notList : x ∉ list :: items := by
        intro member
        cases List.mem_cons.mp member with
        | inl same => exact isItem (same ▸ head)
        | inr inside => exact before inside
      have wasNot : ¬ q.Member x := by
        intro member
        cases member_update list items' dropped' member with
        | inl here =>
          obtain ⟨its, found, inside⟩ := here
          exact before (Option.some.inj (at_.symm.trans found) ▸ inside)
        | inr later => exact notMember later
      have clear := refines.cleared x isItem wasNot fun dropped => notDropped ((dropping x).mpr ⟨dropped, stays⟩)
      exact (cleared_iff (frame x notList stays)).mpr clear
  case dropped =>
    intro x dropped
    obtain ⟨before, stays⟩ := (dropping x).mp dropped
    obtain ⟨isItem, notMember, linked⟩ := refines.dropped x before
    have notList : x ∉ list :: items := by
      intro member
      cases List.mem_cons.mp member with
      | inl same => exact isItem (same ▸ head)
      | inr inside => exact notMember ⟨list, items, at_, inside⟩
    refine ⟨isItem, ?_, (cleared_iff (frame x notList stays)).not.mpr linked⟩
    intro ⟨l, its, found, inside⟩
    cases update_cases found with
    | inl here =>
      rw [here.2] at inside
      cases members x inside with
      | inl was => exact notMember ⟨list, items, at_, was⟩
      | inr joins => exact stays joins
    | inr elsewhere => exact notMember ⟨l, its, elsewhere.2, inside⟩

/-! ### The operations -/

/-- Every node has its own two fields. -/
abbrev Fields (σ : Type) {α : Type} [NodeStore σ α] : Prop := Independent σ fun _ : α => True

omit [DecidableEq α] in
theorem insulated_node (fields : Fields σ) (x : α) : Insulated (fun s : σ => (prev s x, next s x)) fun y => x ≠ y := by
  intro s y v other
  constructor
  · exact Prod.ext (fields.prev_setPrev_other _ _ _ _ trivial trivial other) (fields.next_setPrev _ _ _ _ trivial trivial)
  · exact Prod.ext (fields.prev_setNext _ _ _ _ trivial trivial) (fields.next_setNext_other _ _ _ _ trivial trivial other)

omit [DecidableEq α] in
theorem Fresh.outside {item : α} (fresh : Fresh isHead (null σ) q item) (refines : Refines isHead q s)
    (at_ : q.lists list = some items) : item ∉ list :: items := by
  intro member
  cases List.mem_cons.mp member with
  | inl same => exact fresh.isItem (same ▸ refines.head list items at_)
  | inr inside => exact fresh.notMember ⟨list, items, at_, inside⟩

theorem insertBefore_append {entry : α} (newEntry : α) (first : entry ∉ left) :
    insertBefore entry newEntry (left ++ entry :: right) = left ++ newEntry :: entry :: right := by
  induction left with
  | nil => exact if_pos rfl
  | cons x left ih =>
    obtain ⟨ne, later⟩ := not_or.mp (List.mem_cons.not.mp first)
    rw [List.cons_append, insertBefore, if_neg fun same => ne same.symm, ih later]
    rfl

theorem insertAfter_append {entry : α} (newEntry : α) (first : entry ∉ left) :
    insertAfter entry newEntry (left ++ entry :: right) = left ++ entry :: newEntry :: right := by
  induction left with
  | nil => exact if_pos rfl
  | cons x left ih =>
    obtain ⟨ne, later⟩ := not_or.mp (List.mem_cons.not.mp first)
    rw [List.cons_append, insertAfter, if_neg fun same => ne same.symm, ih later]
    rfl

theorem insertBefore_absent {entry : α} (newEntry : α) (absent : entry ∉ items) :
    insertBefore entry newEntry items = items := by
  induction items with
  | nil => rfl
  | cons x items ih =>
    obtain ⟨ne, later⟩ := not_or.mp (List.mem_cons.not.mp absent)
    rw [insertBefore, if_neg fun same => ne same.symm, ih later]

theorem insertAfter_absent {entry : α} (newEntry : α) (absent : entry ∉ items) :
    insertAfter entry newEntry items = items := by
  induction items with
  | nil => rfl
  | cons x items ih =>
    obtain ⟨ne, later⟩ := not_or.mp (List.mem_cons.not.mp absent)
    rw [insertAfter, if_neg fun same => ne same.symm, ih later]

theorem Refines.map_eq_update (refines : Refines isHead q s) (at_ : q.lists list = some items) {entry : α}
    (inside : entry ∈ items) {f : List α → List α} (absent : ∀ its, entry ∉ its → f its = its) :
    (fun l => (q.lists l).map f) = Function.update q.lists list (some (f items)) := by
  funext l
  by_cases same : l = list
  · rw [same, Function.update_self, at_]
    rfl
  · rw [Function.update_of_ne same]
    cases found : q.lists l with
    | none => rfl
    | some its =>
      rw [Option.map_some, absent its fun both => same (refines.apart l list its items entry found at_ both inside)]

theorem Refines.insert (refines : Refines isHead q s) (at_ : q.lists list = some (left ++ right)) {item : α}
    (fresh : Fresh isHead (null σ) q item) (ring' : Ring s' list (left ++ item :: right))
    (frame : ∀ x, x ∉ list :: (left ++ right) → x ≠ item → prev s' x = prev s x ∧ next s' x = next s x) :
    Refines isHead ⟨Function.update q.lists list (some (left ++ item :: right)), fun x => q.dropped x ∧ x ≠ item⟩ s' := by
  apply refines.edit at_ [item] ring'
  case members =>
    intro x member
    simp only [List.mem_append, List.mem_cons, List.not_mem_nil, or_false] at member ⊢
    tauto
  case fresh =>
    intro x member
    rw [List.mem_singleton.mp member]
    exact ⟨fresh, by simp⟩
  case leaving =>
    intro x before gone
    simp only [List.mem_append, List.mem_cons] at before gone
    tauto
  case frame =>
    intro x outside other
    exact frame x outside fun same => other (List.mem_singleton.mpr same)
  case dropping =>
    intro x
    rw [List.mem_singleton]

theorem Refines.delete (refines : Refines isHead q s) (fields : Fields σ) {item : α}
    (at_ : q.lists list = some (left ++ item :: right)) :
    Refines isHead ⟨Function.update q.lists list (some (left ++ right)), q.dropped⟩ (listDelete s item) ∧
      ∀ x, x ∉ list :: (left ++ item :: right) →
        prev (listDelete s item) x = prev s x ∧ next (listDelete s item) x = next s x := by
  have ring := refines.ring list _ at_
  have frame (x : α) (outside : x ∉ list :: (left ++ item :: right)) :
      prev (listDelete s item) x = prev s x ∧ next (listDelete s item) x = next s x := by
    have kept := ring_delete_frame fields ring (fun _ _ => trivial) (insulated_node fields x) fun y member same =>
      outside (same ▸ member)
    exact Prod.ext_iff.mp kept
  refine ⟨?_, frame⟩
  apply refines.edit at_ [] (ring_delete fields ring fun _ _ => trivial)
  case members =>
    intro x member
    simp only [List.mem_append, List.mem_cons] at member ⊢
    tauto
  case fresh =>
    intro x member
    cases member
  case leaving =>
    intro x before gone
    simp only [List.mem_append, List.mem_cons] at before gone
    obtain rfl : x = item := by tauto
    exact listDelete_clears fields trivial
  case frame => exact fun x outside _ => frame x outside
  case dropping => exact fun x => (and_iff_left List.not_mem_nil).symm

omit [DecidableEq α] in
theorem Refines.first_entry (refines : Refines isHead q s) {entry : α} (member : q.Member entry) :
    ∃ list left right, q.lists list = some (left ++ entry :: right) ∧ entry ∉ left ∧
      entry ∈ left ++ entry :: right := by
  obtain ⟨list, items, at_, inside⟩ := member
  obtain ⟨left, right, rfl⟩ := List.append_of_mem inside
  refine ⟨list, left, right, at_, ?_, inside⟩
  intro before
  have nodup := (List.nodup_cons.mp (refines.ring list _ at_).nodup).2
  exact (List.nodup_append.mp nodup).2.2 entry before entry List.mem_cons_self rfl

theorem Refines.addHead (refines : Refines isHead q s) (fields : Fields σ) {item : α} (at_ : q.lists list = some items)
    (fresh : Fresh isHead (null σ) q item) : Simulates isHead q s (.addHead list item) := by
  have ring := refines.ring list items at_
  have outside := fresh.outside refines at_
  have frame (x : α) (off : x ∉ list :: items) (other : x ≠ item) :
      prev (listAddHead s list item) x = prev s x ∧ next (listAddHead s list item) x = next s x := by
    have kept := ring_addHead_frame fields ring (fun _ _ => trivial) trivial outside (insulated_node fields x)
      (fun y member same => off (same ▸ member)) other
    exact Prod.ext_iff.mp kept
  have ring' := ring_addHead fields ring (fun _ _ => trivial) trivial outside
  constructor
  case result => rfl
  case refines =>
    dsimp only [ListOp.apply]
    rw [at_]
    exact refines.insert (show q.lists list = some ([] ++ items) from at_) fresh ring' frame
  case frame =>
    intro x untouched
    obtain ⟨other, off⟩ := not_or.mp untouched
    exact frame x (fun member => off ⟨items, at_, member⟩) other

theorem Refines.addTail (refines : Refines isHead q s) (fields : Fields σ) {item : α} (at_ : q.lists list = some items)
    (fresh : Fresh isHead (null σ) q item) : Simulates isHead q s (.addTail list item) := by
  have ring := refines.ring list items at_
  have outside := fresh.outside refines at_
  have frame (x : α) (off : x ∉ list :: items) (other : x ≠ item) :
      prev (listAddTail s list item) x = prev s x ∧ next (listAddTail s list item) x = next s x := by
    have kept := ring_addTail_frame fields ring (fun _ _ => trivial) trivial outside (insulated_node fields x)
      (fun y member same => off (same ▸ member)) other
    exact Prod.ext_iff.mp kept
  have ring' := ring_addTail fields ring (fun _ _ => trivial) trivial outside
  constructor
  case result => rfl
  case refines =>
    dsimp only [ListOp.apply]
    rw [at_]
    rw [← List.append_nil items] at at_ frame
    exact refines.insert at_ fresh ring' frame
  case frame =>
    intro x untouched
    obtain ⟨other, off⟩ := not_or.mp untouched
    exact frame x (fun member => off ⟨items, at_, member⟩) other

theorem Refines.addBefore (refines : Refines isHead q s) (fields : Fields σ) {entry newEntry : α}
    (member : q.Member entry) (fresh : Fresh isHead (null σ) q newEntry) :
    Simulates isHead q s (.addBefore entry newEntry) := by
  obtain ⟨list, left, right, at_, first, inside⟩ := refines.first_entry member
  have ring := refines.ring list _ at_
  have outside := fresh.outside refines at_
  have frame (x : α) (off : x ∉ list :: (left ++ entry :: right)) (other : x ≠ newEntry) :
      prev (listAddBefore s entry newEntry) x = prev s x ∧ next (listAddBefore s entry newEntry) x = next s x := by
    have kept := ring_addBefore_frame fields ring (fun _ _ => trivial) trivial outside (insulated_node fields x)
      (fun y member same => off (same ▸ member)) other
    exact Prod.ext_iff.mp kept
  have ring' := ring_addBefore fields ring (fun _ _ => trivial) trivial outside
  constructor
  case result => rfl
  case refines =>
    dsimp only [ListOp.apply]
    rw [refines.map_eq_update at_ inside fun its => insertBefore_absent newEntry, insertBefore_append newEntry first]
    exact refines.insert at_ fresh ring' frame
  case frame =>
    intro x untouched
    obtain ⟨other, off⟩ := not_or.mp untouched
    exact frame x (fun member => off ⟨list, _, at_, inside, member⟩) other

theorem Refines.addAfter (refines : Refines isHead q s) (fields : Fields σ) {entry newEntry : α}
    (member : q.Member entry) (fresh : Fresh isHead (null σ) q newEntry) :
    Simulates isHead q s (.addAfter entry newEntry) := by
  obtain ⟨list, left, right, at_, first, inside⟩ := refines.first_entry member
  have ring := refines.ring list _ at_
  have outside := fresh.outside refines at_
  have frame (x : α) (off : x ∉ list :: (left ++ entry :: right)) (other : x ≠ newEntry) :
      prev (listAddAfter s entry newEntry) x = prev s x ∧ next (listAddAfter s entry newEntry) x = next s x := by
    have kept := ring_addAfter_frame fields ring (fun _ _ => trivial) trivial outside (insulated_node fields x)
      (fun y member same => off (same ▸ member)) other
    exact Prod.ext_iff.mp kept
  have ring' := ring_addAfter fields ring (fun _ _ => trivial) trivial outside
  constructor
  case result => rfl
  case refines =>
    dsimp only [ListOp.apply]
    rw [refines.map_eq_update at_ inside fun its => insertAfter_absent newEntry, insertAfter_append newEntry first]
    have regrouped : left ++ entry :: right = (left ++ [entry]) ++ right := by simp
    have regrouped' : left ++ entry :: newEntry :: right = (left ++ [entry]) ++ newEntry :: right := by simp
    rw [regrouped] at at_ frame
    rw [regrouped'] at ring' ⊢
    exact refines.insert at_ fresh ring' frame
  case frame =>
    intro x untouched
    obtain ⟨other, off⟩ := not_or.mp untouched
    exact frame x (fun member => off ⟨list, _, at_, inside, member⟩) other

theorem Refines.deleteItem (refines : Refines isHead q s) (fields : Fields σ) {item : α} (member : q.Member item) :
    Simulates isHead q s (.delete item) := by
  obtain ⟨list, left, right, at_, first, inside⟩ := refines.first_entry member
  obtain ⟨after, frame⟩ := refines.delete fields at_
  constructor
  case result => rfl
  case refines =>
    have erased : (left ++ item :: right).erase item = left ++ right := by
      rw [List.erase_append_right _ first, List.erase_cons_head]
    dsimp only [ListOp.apply]
    rw [refines.map_eq_update at_ inside fun its absent => List.erase_of_not_mem absent, erased]
    exact after
  case frame =>
    intro x untouched
    exact frame x fun member => untouched ⟨list, _, at_, inside, member⟩

theorem Refines.unchanged (refines : Refines isHead q s) (at_ : q.lists list = some items) :
    Refines isHead ⟨Function.update q.lists list (some items), q.dropped⟩ s := by
  rwa [← at_, Function.update_eq_self]

theorem Refines.removeHead (refines : Refines isHead q s) (fields : Fields σ) (at_ : q.lists list = some items) :
    Simulates isHead q s (.removeHead list) := by
  have ring := refines.ring list items at_
  have forward := ring_next_head ring
  cases items with
  | nil =>
    have same : listRemoveHead s list = (null σ, s) := if_neg (not_not.mpr forward)
    constructor
    case result =>
      dsimp only [ListOp.apply, ListOp.perform]
      rw [same, at_]
      rfl
    case refines =>
      dsimp only [ListOp.apply, ListOp.perform]
      rw [same, at_]
      exact refines.unchanged at_
    case frame =>
      dsimp only [ListOp.perform]
      rw [same]
      exact fun x _ => ⟨rfl, rfl⟩
  | cons x items =>
    have notHead : next s list ≠ list := by
      intro same
      exact ring.head_not_mem (by rw [← same, forward]; exact List.mem_cons_self)
    have removed : listRemoveHead s list = (x, listDelete s x) := by
      unfold listRemoveHead
      rw [if_pos notHead, forward]
      rfl
    obtain ⟨after, frame⟩ := refines.delete fields (show q.lists list = some ([] ++ x :: items) from at_)
    constructor
    case result =>
      dsimp only [ListOp.apply, ListOp.perform]
      rw [removed, at_]
      rfl
    case refines =>
      dsimp only [ListOp.apply, ListOp.perform]
      rw [removed, at_]
      exact after
    case frame =>
      intro y untouched
      dsimp only [ListOp.perform]
      rw [removed]
      exact frame y fun member => untouched ⟨_, at_, member⟩

theorem Refines.removeTail (refines : Refines isHead q s) (fields : Fields σ) (at_ : q.lists list = some items) :
    Simulates isHead q s (.removeTail list) := by
  have ring := refines.ring list items at_
  have backward := ring_prev_head ring
  induction items using List.reverseRecOn with
  | nil =>
    have same : listRemoveTail s list = (null σ, s) := if_neg (not_not.mpr backward)
    constructor
    case result =>
      dsimp only [ListOp.apply, ListOp.perform]
      rw [same, at_]
      rfl
    case refines =>
      dsimp only [ListOp.apply, ListOp.perform]
      rw [same, at_]
      exact refines.unchanged at_
    case frame =>
      dsimp only [ListOp.perform]
      rw [same]
      exact fun x _ => ⟨rfl, rfl⟩
  | append_singleton items x _ =>
    rw [List.getLastD_concat] at backward
    have notHead : prev s list ≠ list := by
      intro same
      exact ring.head_not_mem (by rw [← same, backward]; simp)
    have removed : listRemoveTail s list = (x, listDelete s x) := by
      unfold listRemoveTail
      rw [if_pos notHead, backward]
    obtain ⟨after, frame⟩ := refines.delete fields (show q.lists list = some (items ++ x :: []) from at_)
    rw [List.append_nil] at after
    constructor
    case result =>
      dsimp only [ListOp.apply, ListOp.perform]
      rw [removed, at_, Option.bind_some, List.getLast?_concat]
      rfl
    case refines =>
      dsimp only [ListOp.apply, ListOp.perform]
      rw [removed, at_, Option.map_some, List.dropLast_concat]
      exact after
    case frame =>
      intro y untouched
      dsimp only [ListOp.perform]
      rw [removed]
      exact frame y fun member => untouched ⟨_, at_, member⟩

theorem Refines.init (refines : Refines isHead q s) (fields : Fields σ) (nonnull : ¬ isHead (null σ))
    (head : isHead list) : Simulates isHead q s (.init list) := by
  have frame (x : α) (other : x ≠ list) :
      prev (listInitialize s list) x = prev s x ∧ next (listInitialize s list) x = next s x := by
    have quiet := insulated_node fields x
    exact Prod.ext_iff.mp ((quiet (setNext s list list) list list other).1.trans (quiet s list list other).2)
  -- A member of the lists afterwards is one of another list.
  have isMember {l : α} {its : List α} {x : α} (found : Function.update q.lists list (some []) l = some its)
      (inside : x ∈ its) : l ≠ list ∧ q.lists l = some its := by
    cases update_cases found with
    | inl here =>
      rw [here.2] at inside
      cases inside
    | inr elsewhere => exact elsewhere
  have empty : Ring (listInitialize s list) list [] := ring_initialize fields trivial
  have rings {l : α} {its : List α} (found : Function.update q.lists list (some []) l = some its) :=
    refines.rings head empty (fun l its ne found x member =>
      frame x (refines.ne_head head ne found member)) found
  have linked (x : α) (isItem : ¬ isHead x) : Cleared (listInitialize s list) x ↔ Cleared s x :=
    cleared_iff (frame x fun same => isItem (same ▸ head))
  constructor
  case result => rfl
  case frame => exact fun x untouched => frame x untouched
  case refines =>
    constructor
    case ring => exact fun l its found => (rings found).1
    case head => exact fun l its found => (rings found).2
    case item =>
      intro x ⟨l, its, found, inside⟩
      exact refines.item x ⟨l, its, (isMember found inside).2, inside⟩
    case apart =>
      intro l l' its its' x found found' inside inside'
      exact refines.apart l l' its its' x (isMember found inside).2 (isMember found' inside').2 inside inside'
    case cleared =>
      intro x isItem notMember notDropped
      have wasNot : ¬ q.Member x := by
        intro member
        cases member_update list [] _ member with
        | inl here => exact notDropped (Or.inr here)
        | inr later => exact notMember later
      exact (linked x isItem).mpr (refines.cleared x isItem wasNot fun dropped => notDropped (Or.inl dropped))
    case dropped =>
      intro x dropped
      cases dropped with
      | inl before =>
        obtain ⟨isItem, notMember, notClear⟩ := refines.dropped x before
        refine ⟨isItem, ?_, (linked x isItem).not.mpr notClear⟩
        intro ⟨l, its, found, inside⟩
        exact notMember ⟨l, its, (isMember found inside).2, inside⟩
      | inr now =>
        obtain ⟨items, at_, inside⟩ := now
        have member : q.Member x := ⟨list, items, at_, inside⟩
        have isItem := (refines.item x member).1
        refine ⟨isItem, ?_, (linked x isItem).not.mpr (refines.not_cleared nonnull member)⟩
        intro ⟨l, its, found, inside'⟩
        obtain ⟨ne, found⟩ := isMember found inside'
        exact ne (refines.apart l list its items x found at_ inside' inside)

theorem Refines.simulates (refines : Refines isHead q s) (fields : Fields σ) (nonnull : ¬ isHead (null σ)) (op : ListOp α)
    (allowed : op.Allowed isHead (null σ) q) : Simulates isHead q s op := by
  cases op with
  | init list => exact refines.init fields nonnull allowed
  | addHead list item =>
    obtain ⟨items, at_⟩ := Option.ne_none_iff_exists'.mp allowed.1
    exact refines.addHead fields at_ allowed.2
  | addTail list item =>
    obtain ⟨items, at_⟩ := Option.ne_none_iff_exists'.mp allowed.1
    exact refines.addTail fields at_ allowed.2
  | addBefore entry newEntry => exact refines.addBefore fields allowed.1 allowed.2
  | addAfter entry newEntry => exact refines.addAfter fields allowed.1 allowed.2
  | delete item => exact refines.deleteItem fields allowed
  | removeHead list =>
    obtain ⟨items, at_⟩ := Option.ne_none_iff_exists'.mp allowed
    exact refines.removeHead fields at_
  | removeTail list =>
    obtain ⟨items, at_⟩ := Option.ne_none_iff_exists'.mp allowed
    exact refines.removeTail fields at_

omit [DecidableEq α] in
theorem refines_start (cleared : ∀ x, ¬ isHead x → Cleared s x) : Refines isHead Sequences.none s where
  ring := by
    intro _ _ found
    cases found
  head := by
    intro _ _ found
    cases found
  item := by
    intro _ ⟨_, _, found, _⟩
    cases found
  apart := by
    intro _ _ _ _ _ found
    cases found
  cleared := fun x isItem _ _ => cleared x isItem
  dropped := fun _ dropped => dropped.elim

theorem run_refines (fields : Fields σ) (nonnull : ¬ isHead (null σ)) {ops : List (ListOp α)} {state : σ × Sequences α}
    (cleared : ∀ x, ¬ isHead x → Cleared s x) (run : Run (Step isHead) (s, Sequences.none) ops state) :
    Refines isHead state.2 state.1 := by
  apply run.invariant fun state => Refines isHead state.2 state.1
  case base => exact refines_start cleared
  case preserved =>
    intro state op state' _ refines step
    obtain ⟨allowed, rfl⟩ := step
    exact (refines.simulates fields nonnull op allowed).refines

end

/-! ### A memory of list nodes -/

structure ListNode where
  prev : Word
  next : Word
deriving DecidableEq

abbrev NodeMemory := Word → ListNode

instance : NodeStore NodeMemory Word where
  null := 0#32
  prev m x := (m x).prev
  next m x := (m x).next
  setPrev m x v := Function.update m x { m x with prev := v }
  setNext m x v := Function.update m x { m x with next := v }

theorem update_field {β : Type} (field : ListNode → β) (m : NodeMemory) (x y : Word) {node : ListNode}
    (same : field node = field (m x)) : field (Function.update m x node y) = field (m y) := by
  by_cases here : y = x
  · rw [here, Function.update_self, same]
  · rw [Function.update_of_ne here]

theorem nodeMemory_fields : Fields NodeMemory where
  prev_setPrev_same := fun m x v _ => congrArg ListNode.prev (Function.update_self x { m x with prev := v } m)
  prev_setPrev_other := fun _ _ _ _ _ _ other => congrArg ListNode.prev (Function.update_of_ne other ..)
  prev_setNext := fun m x y _ _ _ => update_field ListNode.prev m x y rfl
  next_setNext_same := fun m x v _ => congrArg ListNode.next (Function.update_self x { m x with next := v } m)
  next_setNext_other := fun _ _ _ _ _ _ other => congrArg ListNode.next (Function.update_of_ne other ..)
  next_setPrev := fun m x y _ _ _ => update_field ListNode.next m x y rfl

/-- In every run of operations the lists in memory are the sequences. -/
theorem list_refinement {isHead : Word → Prop} (nonnull : ¬ isHead 0#32) {m m' : NodeMemory} {q : Sequences Word}
    {ops : List (ListOp Word)} (cleared : ∀ x, ¬ isHead x → Cleared m x)
    (run : Run (Step isHead) (m, Sequences.none) ops (m', q)) :
    Shows isHead q m' ∧ ∀ op : ListOp Word, op.Allowed isHead 0#32 q → Simulates isHead q m' op := by
  have refines := run_refines nodeMemory_fields nonnull cleared run
  exact ⟨refines.shows nonnull, refines.simulates nodeMemory_fields nonnull⟩

def clearMemory : NodeMemory := fun _ => ⟨0#32, 0#32⟩

def after (op : ListOp Word) (state : NodeMemory × Sequences Word) : NodeMemory × Sequences Word :=
  ((op.perform state.1).2, (op.apply state.2).2)

def emptyList : NodeMemory × Sequences Word := after (.init 8#32) (clearMemory, Sequences.none)

/-- A list at 8 with one item, at 16. -/
def oneItem : NodeMemory × Sequences Word := after (.addHead 8#32 16#32) emptyList

theorem emptyList_lists : emptyList.2.lists = Function.update (fun _ => none) 8#32 (some []) := rfl

theorem oneItem_lists : oneItem.2.lists 8#32 = some [16#32] := by
  show Function.update emptyList.2.lists 8#32 ((emptyList.2.lists 8#32).map (16#32 :: ·)) 8#32 = _
  rw [Function.update_self, emptyList_lists, Function.update_self]
  rfl

theorem emptyList_fresh : Fresh (· = 8#32) 0#32 emptyList.2 16#32 := by
  refine ⟨by decide, by decide, ?_⟩
  intro ⟨list, items, found, inside⟩
  rw [emptyList_lists] at found
  by_cases same : list = 8#32
  · rw [same, Function.update_self] at found
    obtain rfl := Option.some.inj found
    cases inside
  · rw [Function.update_of_ne same] at found
    cases found

theorem oneItem_run : Run (Step (· = 8#32)) (clearMemory, Sequences.none) [.init 8#32, .addHead 8#32 16#32] oneItem := by
  have first : Run (Step (· = 8#32)) (clearMemory, Sequences.none) ([] ++ [.init 8#32]) emptyList :=
    (Run.nil _).snoc ⟨show 8#32 = 8#32 from rfl, rfl⟩
  have lists : emptyList.2.lists 8#32 ≠ none := by
    rw [emptyList_lists, Function.update_self]
    exact Option.some_ne_none _
  exact first.snoc ⟨⟨lists, emptyList_fresh⟩, rfl⟩

theorem list_refinement_oneItem : Shows (· = 8#32) oneItem.2 oneItem.1 ∧
    ∀ op : ListOp Word, op.Allowed (· = 8#32) 0#32 oneItem.2 → Simulates (· = 8#32) oneItem.2 oneItem.1 op :=
  list_refinement (by decide) (fun _ _ => ⟨rfl, rfl⟩) oneItem_run

/-- `list_initialize` of a list that has items leaves their pointers, and `list_in_list` goes by these. -/
theorem dropped_in_list : ∃ ops m q, Run (Step (· = 8#32)) (clearMemory, Sequences.none) ops (m, q) ∧
    ¬ (listInList m 16#32 = true ↔ q.Member 16#32) := by
  have again : Step (· = 8#32) oneItem (.init 8#32) (after (.init 8#32) oneItem) := ⟨show 8#32 = 8#32 from rfl, rfl⟩
  have refines := run_refines nodeMemory_fields (by decide) (fun _ _ => ⟨rfl, rfl⟩) (oneItem_run.snoc again)
  obtain ⟨-, notMember, linked⟩ := refines.dropped 16#32 (Or.inr ⟨[16#32], oneItem_lists, List.mem_singleton_self _⟩)
  refine ⟨_, _, _, oneItem_run.snoc again, ?_⟩
  rw [listInList_iff]
  exact fun exact_ => notMember (exact_.mp linked)

end ThreeX86.Lists
