import ThreeX86.Lists.Refinement

/-!
`list_for_every_entry_safe` over a list that its body edits at the entry visited.
-/

namespace ThreeX86.Lists

open Linked Linked.NodeStore

/-- What a body does at an entry: nodes inserted behind it, its deletion, and what else it does to the store. -/
structure Visit (σ α : Type) where
  inserted : List α
  deletes : Bool
  other : σ → σ

section

variable {σ α : Type} [NodeStore σ α]

def Visit.relink (visit : Visit σ α) (s : σ) (entry : α) : σ :=
  let s := visit.inserted.foldl (fun s newEntry => listAddAfter s entry newEntry) s
  if visit.deletes then listDelete s entry else s

def Visit.edit (visit : Visit σ α) (s : σ) (entry : α) : σ := visit.other (visit.relink s entry)

/-- What the visit of `entry` leaves in its place. -/
def Visit.replaces (visit : Visit σ α) (entry : α) : List α :=
  (if visit.deletes then [] else [entry]) ++ visit.inserted.reverse

/-- The body as the loop runs it; it may look at the store and at all visits before. -/
def visiting (plan : σ → List (α × Visit σ α) → α → Visit σ α) (s : σ) (trace : List (α × Visit σ α)) (entry : α) :
    Option (σ × List (α × Visit σ α)) :=
  let visit := plan s trace entry
  some (visit.edit s entry, trace ++ [(entry, visit)])

/-- The nodes inserted are not among those of the list, and nothing else changes a link. -/
structure Visit.InPlace (S : α → Prop) (nodes : List α) (s : σ) (entry : α) (visit : Visit σ α) : Prop where
  fresh : ∀ x ∈ visit.inserted, S x ∧ x ∉ nodes
  nodup : visit.inserted.Nodup
  other : ∀ x, S x → prev (visit.edit s entry) x = prev (visit.relink s entry) x ∧
    next (visit.edit s entry) x = next (visit.relink s entry) x

/-- Each visit of the entries `todo` is in place when it comes, behind what the earlier ones have left. -/
def EditsInPlace (S : α → Prop) (head : α) (plan : σ → List (α × Visit σ α) → α → Visit σ α) (left : List α) :
    List α → σ → List (α × Visit σ α) → Prop
  | [], _, _ => True
  | entry :: todo, s, trace =>
    let visit := plan s trace entry
    visit.InPlace S (head :: (left ++ entry :: todo)) s entry ∧
      EditsInPlace S head plan (left ++ visit.replaces entry) todo (visit.edit s entry) (trace ++ [(entry, visit)])

variable {S : α → Prop} {s : σ} {head entry : α} {left right items : List α}

/-- Nodes inserted behind an entry end up in reverse order. -/
theorem ring_insertAfter (fields : Independent σ S) (news : List α) (ring : Ring s head (left ++ entry :: right))
    (inside : ∀ x ∈ head :: (left ++ entry :: right), S x) (fresh : ∀ x ∈ news, S x ∧ x ∉ head :: (left ++ entry :: right))
    (nodup : news.Nodup) :
    Ring (news.foldl (fun s newEntry => listAddAfter s entry newEntry) s) head (left ++ entry :: (news.reverse ++ right)) ∧
      ∀ x ∈ head :: (left ++ entry :: (news.reverse ++ right)), S x := by
  induction news generalizing s right with
  | nil => exact ⟨ring, inside⟩
  | cons x news ih =>
    obtain ⟨notLater, nodup⟩ := List.nodup_cons.mp nodup
    obtain ⟨inX, outside⟩ := fresh x List.mem_cons_self
    have linked := ring_addAfter fields ring inside inX outside
    have inside' : ∀ y ∈ head :: (left ++ entry :: x :: right), S y := by
      intro y member
      by_cases same : y = x
      · rw [same]
        exact inX
      · apply inside
        simp only [List.mem_cons, List.mem_append] at member ⊢
        tauto
    have later := ih linked inside' (fun y member => ?_) nodup
    · rw [List.foldl_cons, List.reverse_cons, List.append_assoc, List.singleton_append]
      exact later
    · obtain ⟨inY, off⟩ := fresh y (List.mem_cons_of_mem _ member)
      have ne : y ≠ x := fun same => notLater (same ▸ member)
      refine ⟨inY, ?_⟩
      simp only [List.mem_cons, List.mem_append] at off ⊢
      tauto

theorem Visit.InPlace.ring {visit : Visit σ α} (inPlace : visit.InPlace S (head :: (left ++ entry :: right)) s entry)
    (fields : Independent σ S) (ring : Ring s head (left ++ entry :: right))
    (inside : ∀ x ∈ head :: (left ++ entry :: right), S x) :
    Ring (visit.edit s entry) head (left ++ visit.replaces entry ++ right) ∧
      ∀ x ∈ head :: (left ++ visit.replaces entry ++ right), S x := by
  obtain ⟨inserted, inside'⟩ := ring_insertAfter fields visit.inserted ring inside inPlace.fresh inPlace.nodup
  have relinked : Ring (visit.relink s entry) head (left ++ visit.replaces entry ++ right) ∧
      ∀ x ∈ head :: (left ++ visit.replaces entry ++ right), S x := by
    unfold Visit.relink Visit.replaces
    cases visit.deletes with
    | false =>
      have regrouped : left ++ ([entry] ++ visit.inserted.reverse) ++ right =
          left ++ entry :: (visit.inserted.reverse ++ right) := by simp
      simp only [Bool.false_eq_true, if_false]
      rw [regrouped]
      exact ⟨inserted, inside'⟩
    | true =>
      simp only [if_true]
      rw [List.nil_append, List.append_assoc]
      refine ⟨ring_delete fields inserted inside', ?_⟩
      intro x member
      apply inside'
      simp only [List.mem_cons, List.mem_append] at member ⊢
      tauto
  obtain ⟨linked, within⟩ := relinked
  refine ⟨linked.transport ?_ ?_, within⟩
  · intro x member
    exact (inPlace.other x (within x member)).2
  · intro x member
    exact (inPlace.other x (within x member)).1

def replaced (visits : List (α × Visit σ α)) : List α := visits.flatMap fun visit => visit.2.replaces visit.1

variable [DecidableEq α] {plan : σ → List (α × Visit σ α) → α → Visit σ α}

/-- The saved entry is the first of the rest, which the visits so far have left alone. -/
theorem ring_safe_visits (fields : Independent σ S) (todo : List α) (trace : List (α × Visit σ α))
    (inPlace : EditsInPlace S head plan left todo s trace) (ring : Ring s head (left ++ todo)) (inside : ∀ x ∈ head :: (left ++ todo), S x) :
    ∃ s' visits, (∀ fuel > todo.length, listForEveryEntrySafe head (visiting plan) fuel (todo.headD head)
        (next s (todo.headD head)) s trace = some (s', trace ++ visits)) ∧
      visits.map Prod.fst = todo ∧ Ring s' head (left ++ replaced visits) := by
  induction todo generalizing s left trace with
  | nil =>
    refine ⟨s, [], ?_, rfl, ring⟩
    intro fuel enough
    cases fuel with
    | zero => exact absurd enough (Nat.not_lt_zero _)
    | succ fuel => rw [listForEveryEntrySafe, List.headD_nil, if_pos rfl, List.append_nil]
  | cons entry todo ih =>
    have notHead : entry ≠ head := by
      intro same
      exact ring.head_not_mem (by simp [same])
    obtain ⟨edited, inside'⟩ := inPlace.1.ring fields ring inside
    obtain ⟨s', visits, walked, visited, final⟩ := ih (trace ++ [(entry, plan s trace entry)]) inPlace.2 edited inside'
    refine ⟨s', (entry, plan s trace entry) :: visits, ?_, ?_, ?_⟩
    · intro fuel enough
      cases fuel with
      | zero => exact absurd enough (Nat.not_lt_zero _)
      | succ fuel =>
        have rest := walked fuel (by simpa using enough)
        rw [List.append_assoc, List.singleton_append] at rest
        rw [listForEveryEntrySafe, List.headD_cons, if_neg notHead, ring_next ring, ← rest]
        rfl
    · rw [List.map_cons, visited]
    · rw [replaced, List.flatMap_cons, ← List.append_assoc]
      exact final

/-- The loop visits the entries of the list as it was, once and in order, and the list is edited in place. -/
theorem safe_loop_edits (fields : Independent σ S) (ring : Ring s head items) (inside : ∀ x ∈ head :: items, S x)
    (inPlace : EditsInPlace S head plan [] items s []) :
    ∃ s' visits, (∀ fuel > items.length, listForEveryEntrySafe head (visiting plan) fuel (next s head)
        (next s (next s head)) s [] = some (s', visits)) ∧
      visits.map Prod.fst = items ∧ Ring s' head (replaced visits) := by
  obtain ⟨s', visits, walked, visited, final⟩ := ring_safe_visits fields items [] inPlace ring inside
  rw [ring_next_head ring]
  exact ⟨s', visits, walked, visited, final⟩

end

/-- A body that puts two nodes in the place of each entry. -/
def replaceBy (first second : Word) : NodeMemory → List (Word × Visit NodeMemory Word) → Word → Visit NodeMemory Word :=
  fun _ _ _ => ⟨[second, first], true, id⟩

theorem safe_loop_edits_oneItem :
    ∃ s' visits, (∀ fuel > 1, listForEveryEntrySafe 8#32 (visiting (replaceBy 24#32 32#32)) fuel (next oneItem.1 8#32)
        (next oneItem.1 (next oneItem.1 8#32)) oneItem.1 [] = some (s', visits)) ∧
      visits.map Prod.fst = [16#32] ∧ Ring s' 8#32 (replaced visits) := by
  have refines := run_refines nodeMemory_fields (by decide) (fun _ _ => ⟨rfl, rfl⟩) oneItem_run
  refine safe_loop_edits nodeMemory_fields (refines.ring _ _ oneItem_lists) (fun _ _ => trivial) ⟨⟨?_, ?_, ?_⟩, trivial⟩
  · intro x inserted
    refine ⟨trivial, ?_⟩
    simp only [replaceBy, List.mem_cons, List.not_mem_nil, or_false] at inserted
    cases inserted with
    | inl second =>
      rw [second]
      decide
    | inr first =>
      rw [first]
      decide
  · exact show [32#32, 24#32].Nodup by decide
  · exact fun x _ => ⟨rfl, rfl⟩

end ThreeX86.Lists
