import Mathlib.Data.List.Nodup

/-!
Circular doubly linked lists threaded through the nodes of an arbitrary store.
-/

namespace Linked

/-- A store whose nodes of type `α` carry a backward and a forward pointer. -/
class NodeStore (σ : Type) (α : outParam Type) where
  null : α
  prev : σ → α → α
  next : σ → α → α
  setPrev : σ → α → α → σ
  setNext : σ → α → α → σ

open NodeStore

/-- On the nodes `S` the pointers are independent fields. -/
structure Independent (σ : Type) {α : Type} [NodeStore σ α] (S : α → Prop) : Prop where
  prev_setPrev_same : ∀ (s : σ) x v, S x → prev (setPrev s x v) x = v
  prev_setPrev_other : ∀ (s : σ) x y v, S x → S y → y ≠ x → prev (setPrev s x v) y = prev s y
  prev_setNext : ∀ (s : σ) x y v, S x → S y → prev (setNext s x v) y = prev s y
  next_setNext_same : ∀ (s : σ) x v, S x → next (setNext s x v) x = v
  next_setNext_other : ∀ (s : σ) x y v, S x → S y → y ≠ x → next (setNext s x v) y = next s y
  next_setPrev : ∀ (s : σ) x y v, S x → S y → next (setPrev s x v) y = next s y

/-- A map of stores that leaves the pointers of the nodes `S` alone. -/
structure Commutes {σ α : Type} [NodeStore σ α] (φ : σ → σ) (S : α → Prop) : Prop where
  prev : ∀ (s : σ) x, S x → prev (φ s) x = prev s x
  next : ∀ (s : σ) x, S x → next (φ s) x = next s x
  setPrev : ∀ (s : σ) x v, S x → setPrev (φ s) x v = φ (setPrev s x v)
  setNext : ∀ (s : σ) x v, S x → setNext (φ s) x v = φ (setNext s x v)

section

variable {σ α : Type} [NodeStore σ α]

/-- An observation of the store that does not look at the pointers of the nodes `T`. -/
def Insulated {β : Type} (f : σ → β) (T : α → Prop) : Prop :=
  ∀ (s : σ) x v, T x → f (setPrev s x v) = f s ∧ f (setNext s x v) = f s

/-- Consecutive nodes point at each other. -/
def Links (s : σ) : List α → Prop
  | x :: y :: rest => next s x = y ∧ prev s y = x ∧ Links s (y :: rest)
  | _ => True

@[simp] theorem links_nil (s : σ) : Links s ([] : List α) := trivial

@[simp] theorem links_single (s : σ) (x : α) : Links s [x] := trivial

@[simp] theorem links_cons_cons (s : σ) (x y : α) (rest : List α) :
    Links s (x :: y :: rest) ↔ next s x = y ∧ prev s y = x ∧ Links s (y :: rest) := Iff.rfl

theorem Links.next_mem {s : σ} {nodes : List α} (links : Links s nodes) :
    ∀ x ∈ nodes.dropLast, next s x ∈ nodes.tail := by
  induction nodes with
  | nil => simp
  | cons a rest ih =>
    cases rest with
    | nil => simp
    | cons b rest =>
      intro x member
      rw [List.dropLast_cons_cons] at member
      rcases List.mem_cons.mp member with rfl | member
      · rw [links.1]
        exact List.mem_cons_self
      · exact List.mem_cons_of_mem _ (ih links.2.2 x member)

theorem Links.prev_mem {s : σ} {nodes : List α} (links : Links s nodes) :
    ∀ x ∈ nodes.tail, prev s x ∈ nodes.dropLast := by
  induction nodes with
  | nil => simp
  | cons a rest ih =>
    cases rest with
    | nil => simp
    | cons b rest =>
      intro x member
      rw [List.dropLast_cons_cons]
      rcases List.mem_cons.mp member with rfl | member
      · rw [links.2.1]
        exact List.mem_cons_self
      · exact List.mem_cons_of_mem _ (ih links.2.2 x member)

/-- A list of links splits at any node, which both halves keep. -/
theorem links_append (s : σ) (left : List α) (x : α) (right : List α) :
    Links s (left ++ x :: right) ↔ Links s (left ++ [x]) ∧ Links s (x :: right) := by
  induction left with
  | nil => simp
  | cons a left ih =>
    cases left with
    | nil => simp [and_assoc]
    | cons b left =>
      simp only [List.cons_append, links_cons_cons] at ih ⊢
      rw [ih]
      simp only [and_assoc]

theorem links_seam (s : σ) (left right : List α) (u v : α) :
    Links s (left ++ u :: v :: right) ↔
      Links s (left ++ [u]) ∧ (next s u = v ∧ prev s v = u) ∧ Links s (v :: right) := by
  rw [links_append]
  simp only [links_cons_cons, and_assoc]

/-- Links read the forward pointers of all nodes but the last and the backward pointers of
    all nodes but the first. -/
theorem Links.transport {s s' : σ} {nodes : List α} (links : Links s nodes)
    (forward : ∀ x ∈ nodes.dropLast, next s' x = next s x)
    (backward : ∀ x ∈ nodes.tail, prev s' x = prev s x) : Links s' nodes := by
  induction nodes with
  | nil => trivial
  | cons a nodes ih =>
    cases nodes with
    | nil => trivial
    | cons b nodes =>
      simp only [links_cons_cons] at links ⊢
      simp only [List.dropLast_cons_cons, List.mem_cons, forall_eq_or_imp, List.tail_cons] at forward backward
      refine ⟨forward.1.trans links.1, backward.1.trans links.2.1, ih links.2.2 forward.2 ?_⟩
      intro x member
      exact backward.2 x member

/-- The circular list with head node `head` and members `items`, in forward order. -/
structure Ring (s : σ) (head : α) (items : List α) : Prop where
  links : Links s (head :: items ++ [head])
  nodup : (head :: items).Nodup

/-- Two stores that agree on the forward pointers of a stretch of nodes agree on what follows it. -/
theorem Links.same_next {s s' : σ} {x y head : α} {left rest items : List α} (links : Links s (x :: left ++ y :: rest))
    (links' : Links s' (x :: items ++ [head])) (agree : ∀ z ∈ x :: left, next s' z = next s z)
    (notHead : ∀ z ∈ left ++ [y], z ≠ head) : ∃ rest', items = left ++ y :: rest' := by
  induction left generalizing x items with
  | nil =>
    have forward := (agree x List.mem_cons_self).trans links.1
    cases items with
    | nil => exact absurd (forward.symm.trans links'.1) (notHead y (by simp))
    | cons i items => exact ⟨items, by rw [← links'.1, forward]; rfl⟩
  | cons a left ih =>
    have forward := (agree x List.mem_cons_self).trans links.1
    cases items with
    | nil => exact absurd (forward.symm.trans links'.1) (notHead a (by simp))
    | cons i items =>
      have same : i = a := links'.1.symm.trans forward
      subst same
      obtain ⟨rest', rfl⟩ := ih links.2.2 links'.2.2 (fun z member => agree z (List.mem_cons_of_mem _ member))
        fun z member => notHead z (List.mem_cons_of_mem _ member)
      exact ⟨rest', rfl⟩

theorem Ring.same_next {s s' : σ} {y head : α} {left rest items : List α} (ring : Ring s head (left ++ y :: rest))
    (ring' : Ring s' head items) (agree : ∀ z ∈ head :: left, next s' z = next s z) :
    ∃ rest', items = left ++ y :: rest' := by
  have links := ring.links
  rw [List.cons_append, List.append_assoc, List.cons_append] at links
  apply Links.same_next links ring'.links agree
  intro z member same
  subst same
  apply (List.nodup_cons.mp ring.nodup).1
  simp only [List.mem_append, List.mem_cons, List.not_mem_nil, or_false] at member ⊢
  tauto

theorem Links.unique {s : σ} {x head : α} {items items' : List α} (links : Links s (x :: items ++ [head]))
    (links' : Links s (x :: items' ++ [head])) (off : head ∉ items) (off' : head ∉ items') : items = items' := by
  induction items generalizing x items' with
  | nil =>
    cases items' with
    | nil => rfl
    | cons y items' =>
      have same : head = y := links.1.symm.trans links'.1
      exact absurd (same ▸ List.mem_cons_self) off'
  | cons y items ih =>
    cases items' with
    | nil =>
      have same : head = y := links'.1.symm.trans links.1
      exact absurd (same ▸ List.mem_cons_self) off
    | cons z items' =>
      have same : z = y := links'.1.symm.trans links.1
      subst same
      rw [ih links.2.2 links'.2.2 (fun member => off (List.mem_cons_of_mem _ member))
        fun member => off' (List.mem_cons_of_mem _ member)]

/-- The pointers determine the members and their order. -/
theorem Ring.unique {s : σ} {head : α} {items items' : List α} (ring : Ring s head items) (ring' : Ring s head items') :
    items = items' :=
  Links.unique ring.links ring'.links (List.nodup_cons.mp ring.nodup).1 (List.nodup_cons.mp ring'.nodup).1

/-- The effect of linking `item` in between `u` and `v`. -/
structure LinkedIn (S : α → Prop) (s s' : σ) (u item v : α) : Prop where
  next_left : next s' u = item
  prev_item : prev s' item = u
  next_item : next s' item = v
  prev_right : prev s' v = item
  next_other : ∀ x, S x → x ≠ u → x ≠ item → next s' x = next s x
  prev_other : ∀ x, S x → x ≠ v → x ≠ item → prev s' x = prev s x

/-- The effect of unlinking `item` from between `u` and `v`. -/
structure LinkedOut (S : α → Prop) (s s' : σ) (u item v : α) : Prop where
  next_left : next s' u = v
  prev_right : prev s' v = u
  next_other : ∀ x, S x → x ≠ u → x ≠ item → next s' x = next s x
  prev_other : ∀ x, S x → x ≠ v → x ≠ item → prev s' x = prev s x

section Edit

variable {S : α → Prop} {s s' : σ} {head u v item : α} {left right before after : List α}

theorem links_before (links : Links s (before ++ [u])) (atLeft : head :: left = before ++ [u])
    (nodup : (head :: left).Nodup) (inside : ∀ x ∈ head :: left, S x) (notRight : v ∉ left)
    (fresh : item ∉ head :: left)
    (forward : ∀ x, S x → x ≠ u → x ≠ item → next s' x = next s x)
    (backward : ∀ x, S x → x ≠ v → x ≠ item → prev s' x = prev s x) :
    Links s' (before ++ [u]) := by
  apply links.transport
  · intro x member
    have earlier : x ∈ before := by simpa using member
    have whole : x ∈ head :: left := by rw [atLeft]; simp [earlier]
    apply forward x (inside x whole)
    · rintro rfl
      rw [atLeft] at nodup
      exact (List.nodup_append.mp nodup).2.2 x earlier x (by simp) rfl
    · rintro rfl
      exact fresh whole
  · intro x member
    have later : x ∈ left := by rwa [← atLeft, List.tail_cons] at member
    apply backward x (inside x (List.mem_cons_of_mem _ later))
    · rintro rfl
      exact notRight later
    · rintro rfl
      exact fresh (List.mem_cons_of_mem _ later)

theorem links_after (links : Links s (v :: after)) (atRight : right ++ [head] = v :: after)
    (nodup : (right ++ [head]).Nodup) (inside : ∀ x ∈ right ++ [head], S x) (notLeft : u ∉ right)
    (fresh : item ∉ right ++ [head])
    (forward : ∀ x, S x → x ≠ u → x ≠ item → next s' x = next s x)
    (backward : ∀ x, S x → x ≠ v → x ≠ item → prev s' x = prev s x) :
    Links s' (v :: after) := by
  apply links.transport
  · intro x member
    have earlier : x ∈ right := by rwa [← atRight, List.dropLast_concat] at member
    have whole : x ∈ right ++ [head] := List.mem_append_left _ earlier
    apply forward x (inside x whole)
    · rintro rfl
      exact notLeft earlier
    · rintro rfl
      exact fresh whole
  · intro x member
    have later : x ∈ after := by simpa using member
    have whole : x ∈ right ++ [head] := by rw [atRight]; simp [later]
    apply backward x (inside x whole)
    · rintro rfl
      rw [atRight] at nodup
      exact (List.nodup_cons.mp nodup).1 later
    · rintro rfl
      exact fresh whole

theorem links_around (first : Links s (before ++ [u])) (last : Links s (v :: after))
    (atLeft : head :: left = before ++ [u]) (atRight : right ++ [head] = v :: after)
    (nodup : (head :: (left ++ right)).Nodup) (inside : ∀ x ∈ head :: (left ++ right), S x)
    (fresh : item ∉ head :: (left ++ right))
    (forward : ∀ x, S x → x ≠ u → x ≠ item → next s' x = next s x)
    (backward : ∀ x, S x → x ≠ v → x ≠ item → prev s' x = prev s x) :
    Links s' (before ++ [u]) ∧ Links s' (v :: after) := by
  simp only [List.nodup_cons, List.mem_append, not_or, List.nodup_append] at nodup
  obtain ⟨⟨headLeft, headRight⟩, nodupLeft, nodupRight, apart⟩ := nodup
  simp only [List.mem_cons, List.mem_append, not_or] at fresh
  have uMember : u = head ∨ u ∈ left := by rw [← List.mem_cons, atLeft]; simp
  have vMember : v ∈ right ∨ v = head := by
    rw [← List.mem_singleton, ← List.mem_append, atRight]; simp
  constructor
  · refine links_before first atLeft (List.nodup_cons.mpr ⟨headLeft, nodupLeft⟩) ?_ ?_ ?_
      forward backward
    · intro x member
      apply inside
      simp only [List.mem_cons, List.mem_append] at member ⊢
      tauto
    · intro member
      rcases vMember with vMember | rfl
      · exact apart v member v vMember rfl
      · exact headLeft member
    · simp [fresh]
  · refine links_after last atRight ?_ ?_ ?_ ?_ forward backward
    · simp only [List.nodup_append, List.nodup_cons, List.not_mem_nil, not_false_eq_true, List.nodup_nil,
        List.mem_singleton, nodupRight, true_and]
      rintro a member b rfl rfl
      exact headRight member
    · intro x member
      apply inside
      simp only [List.mem_cons, List.mem_append, List.not_mem_nil, or_false] at member ⊢
      tauto
    · intro member
      rcases uMember with rfl | uMember
      · exact headRight member
      · exact apart u uMember u member rfl
    · simp [fresh]

end Edit

namespace Ring

variable {S : α → Prop} {s s' : σ} {head u v item : α} {left right before after items : List α}

theorem head_not_mem (ring : Ring s head items) : head ∉ items :=
  (List.nodup_cons.mp ring.nodup).1

theorem seam (ring : Ring s head (left ++ right)) (atLeft : head :: left = before ++ [u])
    (atRight : right ++ [head] = v :: after) :
    Links s (before ++ [u]) ∧ (next s u = v ∧ prev s v = u) ∧ Links s (v :: after) := by
  have links := ring.links
  rw [← links_seam]
  have split : head :: (left ++ right) ++ [head] = before ++ u :: v :: after := by
    calc head :: (left ++ right) ++ [head] = (head :: left) ++ (right ++ [head]) := by simp
      _ = before ++ u :: v :: after := by rw [atLeft, atRight]; simp
  rwa [← split]

/-- Linking a fresh node in between the two neighbours of a position inserts it there. -/
theorem link_in (ring : Ring s head (left ++ right)) (atLeft : head :: left = before ++ [u])
    (atRight : right ++ [head] = v :: after) (inside : ∀ x ∈ head :: (left ++ right), S x)
    (fresh : item ∉ head :: (left ++ right)) (edit : LinkedIn S s s' u item v) :
    Ring s' head (left ++ item :: right) := by
  obtain ⟨first, -, last⟩ := ring.seam atLeft atRight
  obtain ⟨first, last⟩ := links_around first last atLeft atRight ring.nodup inside fresh
    edit.next_other edit.prev_other
  have same : (head :: (left ++ item :: right)).Perm (item :: head :: (left ++ right)) :=
    (List.perm_middle.cons head).trans (List.Perm.swap item head _)
  refine ⟨?_, same.nodup_iff.mpr (List.nodup_cons.mpr ⟨fresh, ring.nodup⟩)⟩
  have split : head :: (left ++ item :: right) ++ [head] = before ++ u :: item :: v :: after := by
    calc head :: (left ++ item :: right) ++ [head]
        = (head :: left) ++ item :: (right ++ [head]) := by simp
      _ = before ++ u :: item :: v :: after := by rw [atLeft, atRight]; simp
  rw [split, links_seam]
  exact ⟨first, ⟨edit.next_left, edit.prev_item⟩, edit.next_item, edit.prev_right, last⟩

/-- Unlinking a member from between its two neighbours erases it. -/
theorem link_out (ring : Ring s head (left ++ item :: right)) (atLeft : head :: left = before ++ [u])
    (atRight : right ++ [head] = v :: after) (inside : ∀ x ∈ head :: (left ++ right), S x)
    (edit : LinkedOut S s s' u item v) :
    Ring s' head (left ++ right) := by
  have same : (head :: (left ++ item :: right)).Perm (item :: head :: (left ++ right)) :=
    (List.perm_middle.cons head).trans (List.Perm.swap item head _)
  obtain ⟨fresh, nodup⟩ := List.nodup_cons.mp (same.nodup_iff.mp ring.nodup)
  have fromItem : (item :: right) ++ [head] = item :: (right ++ [head]) := rfl
  obtain ⟨first, -, rest⟩ := ring.seam atLeft fromItem
  have last : Links s (v :: after) := by
    rw [atRight] at rest
    exact rest.2.2
  obtain ⟨first, last⟩ := links_around first last atLeft atRight nodup inside fresh
    edit.next_other edit.prev_other
  refine ⟨?_, nodup⟩
  have split : head :: (left ++ right) ++ [head] = before ++ u :: v :: after := by
    calc head :: (left ++ right) ++ [head] = (head :: left) ++ (right ++ [head]) := by simp
      _ = before ++ u :: v :: after := by rw [atLeft, atRight]; simp
  rw [split, links_seam]
  exact ⟨first, ⟨edit.next_left, edit.prev_right⟩, last⟩

theorem next_mem (ring : Ring s head items) {x : α} (member : x ∈ head :: items) : next s x ∈ head :: items := by
  have links := ring.links.next_mem x (by rw [List.dropLast_concat]; exact member)
  rw [List.cons_append, List.tail_cons, List.mem_append, List.mem_singleton] at links
  rcases links with inside | rfl
  · exact List.mem_cons_of_mem _ inside
  · exact List.mem_cons_self

theorem prev_mem (ring : Ring s head items) {x : α} (member : x ∈ head :: items) : prev s x ∈ head :: items := by
  have links := ring.links.prev_mem x (by
    rw [List.cons_append, List.tail_cons, List.mem_append, List.mem_singleton]
    exact (List.mem_cons.mp member).symm)
  rw [List.dropLast_concat] at links
  exact links

theorem transport (ring : Ring s head items)
    (forward : ∀ x ∈ head :: items, next s' x = next s x)
    (backward : ∀ x ∈ head :: items, prev s' x = prev s x) : Ring s' head items := by
  refine ⟨ring.links.transport ?_ ?_, ring.nodup⟩
  · intro x member
    rw [List.dropLast_concat] at member
    exact forward x member
  · intro x member
    apply backward x
    simpa [or_comm] using member

end Ring

end

end Linked
