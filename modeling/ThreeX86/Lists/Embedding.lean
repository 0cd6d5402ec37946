import ThreeX86.Lists.List

/-!
One store of nodes found in another: the nodes `S` of the first lie in the second under addresses of
their own, and the list operations commute with the addresses.
-/

namespace Linked

open NodeStore

section

variable {σ ρ α β : Type} [NodeStore σ α] [NodeStore ρ β]

/-- The pointers of every node of `S` are found at its address. -/
structure Embeds (address : α → β) (S : α → Prop) (s : σ) (r : ρ) : Prop where
  backward : ∀ x, S x → prev r (address x) = address (prev s x)
  forward : ∀ x, S x → next r (address x) = address (next s x)

/-- Different nodes of `S` have different addresses, and the pointers there are fields of their own. -/
structure Addressing (σ ρ : Type) {α β : Type} [NodeStore σ α] [NodeStore ρ β] (address : α → β) (S : α → Prop)
    (T : β → Prop) : Prop where
  source : Independent σ S
  target : Independent ρ T
  inside : ∀ x, S x → T (address x)
  distinct : ∀ x y, S x → S y → address x = address y → x = y

variable {address : α → β} {S : α → Prop} {T : β → Prop} {s : σ} {r r' : ρ} {x : α}

theorem Addressing.ne {y : α} (addressing : Addressing σ ρ address S T) (inX : S x) (inY : S y) (ne : x ≠ y) :
    address x ≠ address y := fun same => ne (addressing.distinct x y inX inY same)

theorem Embeds.setPrev (embeds : Embeds address S s r) (addressing : Addressing σ ρ address S T) (inside : S x) (v : α) :
    Embeds address S (setPrev s x v) (setPrev r (address x) (address v)) := by
  have source := addressing.source
  have target := addressing.target
  have within := addressing.inside
  constructor
  · intro y inY
    by_cases same : y = x
    · rw [same, target.prev_setPrev_same _ _ _ (within x inside), source.prev_setPrev_same _ _ _ inside]
    · rw [target.prev_setPrev_other _ _ _ _ (within x inside) (within y inY) (addressing.ne inY inside same),
        source.prev_setPrev_other _ _ _ _ inside inY same, embeds.backward y inY]
  · intro y inY
    rw [target.next_setPrev _ _ _ _ (within x inside) (within y inY), source.next_setPrev _ _ _ _ inside inY,
      embeds.forward y inY]

theorem Embeds.setNext (embeds : Embeds address S s r) (addressing : Addressing σ ρ address S T) (inside : S x) (v : α) :
    Embeds address S (setNext s x v) (setNext r (address x) (address v)) := by
  have source := addressing.source
  have target := addressing.target
  have within := addressing.inside
  constructor
  · intro y inY
    rw [target.prev_setNext _ _ _ _ (within x inside) (within y inY), source.prev_setNext _ _ _ _ inside inY,
      embeds.backward y inY]
  · intro y inY
    by_cases same : y = x
    · rw [same, target.next_setNext_same _ _ _ (within x inside), source.next_setNext_same _ _ _ inside]
    · rw [target.next_setNext_other _ _ _ _ (within x inside) (within y inY) (addressing.ne inY inside same),
        source.next_setNext_other _ _ _ _ inside inY same, embeds.forward y inY]

/-- A change of the second store that leaves the pointers at the addresses alone. -/
theorem Embeds.kept (embeds : Embeds address S s r)
    (same : ∀ x, S x → prev r' (address x) = prev r (address x) ∧ next r' (address x) = next r (address x)) :
    Embeds address S s r' := by
  constructor
  · intro x inside
    rw [(same x inside).1, embeds.backward x inside]
  · intro x inside
    rw [(same x inside).2, embeds.forward x inside]

theorem Embeds.links (embeds : Embeds address S s r) {nodes : List α} (inside : ∀ x ∈ nodes, S x) (links : Links s nodes) :
    Links r (nodes.map address) := by
  induction nodes with
  | nil => trivial
  | cons a nodes ih =>
    cases nodes with
    | nil => trivial
    | cons b nodes =>
      simp only [links_cons_cons, List.map_cons] at links ih ⊢
      have inA := inside a List.mem_cons_self
      have inB := inside b (by simp)
      refine ⟨?_, ?_, ih (fun x member => inside x (List.mem_cons_of_mem _ member)) links.2.2⟩
      · rw [embeds.forward a inA, links.1]
      · rw [embeds.backward b inB, links.2.1]

/-- The lists of the first store are lists of the second. -/
theorem Embeds.ring (embeds : Embeds address S s r) (distinct : ∀ x y, S x → S y → address x = address y → x = y)
    {head : α} {items : List α} (inside : ∀ x ∈ head :: items, S x) (ring : Ring s head items) :
    Ring r (address head) (items.map address) := by
  constructor
  case links =>
    have within : ∀ x ∈ head :: items ++ [head], S x := by
      intro x member
      apply inside
      simp only [List.cons_append, List.mem_cons, List.mem_append, List.not_mem_nil, or_false] at member ⊢
      tauto
    simpa using embeds.links within ring.links
  case nodup =>
    have mapped : ((head :: items).map address).Nodup :=
      ring.nodup.map_on fun x inX y inY same => distinct x y (inside x inX) (inside y inY) same
    exact mapped

/-- The pointers of a list's nodes lead to its nodes. -/
theorem Ring.closed {head : α} {items : List α} (ring : Ring s head items) :
    ∀ x ∈ head :: items, next s x ∈ head :: items ∧ prev s x ∈ head :: items := by
  have members {x : α} (member : x ∈ items ++ [head]) : x ∈ head :: items := by
    simp only [List.mem_append, List.mem_cons, List.not_mem_nil, or_false] at member ⊢
    tauto
  have first : (head :: items ++ [head]).dropLast = head :: items := List.dropLast_concat
  have rest : (head :: items ++ [head]).tail = items ++ [head] := rfl
  have forward := ring.links.next_mem
  have backward := ring.links.prev_mem
  rw [first, rest] at forward backward
  intro x member
  refine ⟨members (forward x member), backward x ?_⟩
  simp only [List.mem_append, List.mem_cons, List.not_mem_nil, or_false] at member ⊢
  tauto

end

end Linked

namespace ThreeX86.Lists

open Linked Linked.NodeStore

section

variable {σ ρ α β : Type} [NodeStore σ α] [NodeStore ρ β] {address : α → β} {S : α → Prop} {T : β → Prop} {s : σ} {r : ρ}
  {list item : α}

theorem embeds_addHead (embeds : Embeds address S s r) (addressing : Addressing σ ρ address S T) (inList : S list)
    (inNext : S (next s list)) (inItem : S item) (notList : item ≠ list) :
    Embeds address S (listAddHead s list item) (listAddHead r (address list) (address item)) := by
  have kept : next (setPrev (setNext s item (next s list)) item list) list = next s list := by
    rw [addressing.source.next_setPrev _ _ _ _ inItem inList,
      addressing.source.next_setNext_other _ _ _ _ inItem inList notList.symm]
  have second := (embeds.setNext addressing inItem (next s list)).setPrev addressing inItem list
  have third := second.setPrev addressing (kept.symm ▸ inNext) item
  have fourth := third.setNext addressing inList item
  rw [← second.forward list inList, ← embeds.forward list inList] at fourth
  exact fourth

theorem embeds_addTail (embeds : Embeds address S s r) (addressing : Addressing σ ρ address S T) (inList : S list)
    (inPrev : S (prev s list)) (inItem : S item) (notList : item ≠ list) :
    Embeds address S (listAddTail s list item) (listAddTail r (address list) (address item)) := by
  have kept : prev (setNext (setPrev s item (prev s list)) item list) list = prev s list := by
    rw [addressing.source.prev_setNext _ _ _ _ inItem inList,
      addressing.source.prev_setPrev_other _ _ _ _ inItem inList notList.symm]
  have second := (embeds.setPrev addressing inItem (prev s list)).setNext addressing inItem list
  have third := second.setNext addressing (kept.symm ▸ inPrev) item
  have fourth := third.setPrev addressing inList item
  rw [← second.backward list inList, ← embeds.backward list inList] at fourth
  exact fourth

theorem embeds_delete (embeds : Embeds address S s r) (addressing : Addressing σ ρ address S T)
    (null : address (null σ) = null ρ) (inItem : S item) (inPrev : S (prev s item)) (inNext : S (next s item)) :
    Embeds address S (listDelete s item) (listDelete r (address item)) := by
  have kept : prev (setPrev s (next s item) (prev s item)) item = prev s item := by
    by_cases same : item = next s item
    · rw [← same, addressing.source.prev_setPrev_same _ _ _ inItem]
    · rw [addressing.source.prev_setPrev_other _ _ _ _ inNext inItem same]
  have first := embeds.setPrev addressing inNext (prev s item)
  have second := first.setNext addressing (kept.symm ▸ inPrev) (next (setPrev s (next s item) (prev s item)) item)
  have fourth := (second.setNext addressing inItem (NodeStore.null σ)).setPrev addressing inItem (NodeStore.null σ)
  rw [null, ← first.backward item inItem, ← first.forward item inItem, ← embeds.backward item inItem,
    ← embeds.forward item inItem] at fourth
  exact fourth

end

end ThreeX86.Lists
