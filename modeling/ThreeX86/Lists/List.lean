import ThreeX86.Lists.Ring

/-!
The intrusive lists of `include/list.h`, over any store of nodes.
-/

namespace ThreeX86.Lists

open Linked Linked.NodeStore

section

variable {σ α : Type} [NodeStore σ α]

def listInitialize (s : σ) (list : α) : σ :=
  let s := setNext s list list
  setPrev s list list

def listClearNode (s : σ) (item : α) : σ :=
  let s := setNext s item (null σ)
  setPrev s item (null σ)

def listAddHead (s : σ) (list item : α) : σ :=
  let s := setNext s item (next s list)
  let s := setPrev s item list
  let s := setPrev s (next s list) item
  setNext s list item

/-- `list_add_after` is `list_add_head` at an entry. -/
def listAddAfter (s : σ) (entry newEntry : α) : σ := listAddHead s entry newEntry

def listAddTail (s : σ) (list item : α) : σ :=
  let s := setPrev s item (prev s list)
  let s := setNext s item list
  let s := setNext s (prev s list) item
  setPrev s list item

/-- `list_add_before` is `list_add_tail` at an entry. -/
def listAddBefore (s : σ) (entry newEntry : α) : σ := listAddTail s entry newEntry

def listDelete (s : σ) (item : α) : σ :=
  let s := setPrev s (next s item) (prev s item)
  let s := setNext s (prev s item) (next s item)
  let s := setNext s item (null σ)
  setPrev s item (null σ)

variable [DecidableEq α]

def listInList (s : σ) (item : α) : Bool :=
  if prev s item = null σ ∧ next s item = null σ then false else true

def listRemoveHead (s : σ) (list : α) : α × σ :=
  if next s list ≠ list then
    let item := next s list
    (item, listDelete s item)
  else
    (null σ, s)

def listRemoveTail (s : σ) (list : α) : α × σ :=
  if prev s list ≠ list then
    let item := prev s list
    (item, listDelete s item)
  else
    (null σ, s)

def listIsEmpty (s : σ) (list : α) : Bool :=
  if next s list = list then true else false

def listPrev (s : σ) (list item : α) : α :=
  if prev s item ≠ list then prev s item else null σ

def listPrevWrap (s : σ) (list item : α) : α :=
  if prev s item ≠ list then prev s item
  else if prev s (prev s item) ≠ list then prev s (prev s item)
  else null σ

def listNext (s : σ) (list item : α) : α :=
  if next s item ≠ list then next s item else null σ

def listNextWrap (s : σ) (list item : α) : α :=
  if next s item ≠ list then next s item
  else if next s (next s item) ≠ list then next s (next s item)
  else null σ

/-- A `list_for_every_entry` loop that leaves by `goto` or `break` at the first entry satisfying
    `stop`: the value of the loop variable afterwards, which is the list head itself when the loop
    walks off the end. `none` is a walk that never comes back to the head. -/
def listForEveryEntryUntil (s : σ) (list : α) (stop : α → Bool) : Nat → α → Option α
  | 0, _ => none
  | fuel + 1, entry =>
    if entry = list then some entry
    else if stop entry then some entry
    else listForEveryEntryUntil s list stop fuel (next s entry)

/-- A `list_for_every_entry` loop that only reads, accumulating over the entries. -/
def listForEveryEntryFold {β : Type} (s : σ) (list : α) (body : β → α → β) : Nat → α → β → Option β
  | 0, _, _ => none
  | fuel + 1, entry, acc =>
    if entry = list then some acc
    else listForEveryEntryFold s list body fuel (next s entry) (body acc entry)

/-- A `list_for_every_entry_safe` loop: `tempEntry` is read before the body, which may change the list. -/
def listForEveryEntrySafe {β : Type} (list : α) (body : σ → β → α → Option (σ × β)) :
    Nat → α → α → σ → β → Option (σ × β)
  | 0, _, _, _, _ => none
  | fuel + 1, entry, tempEntry, s, acc =>
    if entry = list then some (s, acc)
    else do
      let (s, acc) ← body s acc entry
      listForEveryEntrySafe list body fuel tempEntry (next s tempEntry) s acc

end

section Edits

variable {σ α : Type} [NodeStore σ α] {S : α → Prop} {s : σ} {list item : α}

theorem listAddTail_commutes {φ : σ → σ} (fields : Independent σ S) (commutes : Commutes φ S) (inList : S list)
    (inPrev : S (prev s list)) (inItem : S item) (notList : item ≠ list) :
    listAddTail (φ s) list item = φ (listAddTail s list item) := by
  have kept : prev (setNext (setPrev s item (prev s list)) item list) list = prev s list := by
    rw [fields.prev_setNext _ _ _ _ inItem inList, fields.prev_setPrev_other _ _ _ _ inItem inList notList.symm]
  unfold listAddTail
  dsimp only
  rw [commutes.prev s list inList, commutes.setPrev _ _ _ inItem, commutes.setNext _ _ _ inItem,
    commutes.prev _ list inList, kept, commutes.setNext _ _ _ inPrev, commutes.setPrev _ _ _ inList]

theorem listDelete_commutes {φ : σ → σ} (fields : Independent σ S) (commutes : Commutes φ S) (inItem : S item)
    (inPrev : S (prev s item)) (inNext : S (next s item)) : listDelete (φ s) item = φ (listDelete s item) := by
  have keptPrev : prev (setPrev s (next s item) (prev s item)) item = prev s item := by
    by_cases same : item = next s item
    · rw [← same, fields.prev_setPrev_same _ _ _ inItem]
    · rw [fields.prev_setPrev_other _ _ _ _ inNext inItem same]
  have keptNext : next (setPrev s (next s item) (prev s item)) item = next s item :=
    fields.next_setPrev _ _ _ _ inNext inItem
  unfold listDelete
  dsimp only
  rw [commutes.next s item inItem, commutes.prev s item inItem, commutes.setPrev _ _ _ inNext,
    commutes.prev _ item inItem, commutes.next _ item inItem, keptPrev, keptNext, commutes.setNext _ _ _ inPrev,
    commutes.setNext _ _ _ inItem, commutes.setPrev _ _ _ inItem]

theorem listAddTail_linkedIn (fields : Independent σ S) (inList : S list) (inPrev : S (prev s list))
    (inItem : S item) (notList : item ≠ list) (notPrev : item ≠ prev s list) :
    LinkedIn S s (listAddTail s list item) (prev s list) item list := by
  have keeps : prev (setNext (setPrev s item (prev s list)) item list) list = prev s list := by
    rw [fields.prev_setNext _ _ _ _ inItem inList, fields.prev_setPrev_other _ _ _ _ inItem inList notList.symm]
  constructor
  all_goals simp only [listAddTail, keeps]
  case next_left =>
    rw [fields.next_setPrev _ _ _ _ inList inPrev, fields.next_setNext_same _ _ _ inPrev]
  case prev_item =>
    rw [fields.prev_setPrev_other _ _ _ _ inList inItem notList, fields.prev_setNext _ _ _ _ inPrev inItem,
      fields.prev_setNext _ _ _ _ inItem inItem, fields.prev_setPrev_same _ _ _ inItem]
  case next_item =>
    rw [fields.next_setPrev _ _ _ _ inList inItem, fields.next_setNext_other _ _ _ _ inPrev inItem notPrev,
      fields.next_setNext_same _ _ _ inItem]
  case prev_right => rw [fields.prev_setPrev_same _ _ _ inList]
  case next_other =>
    intro x inX notLeft notItem
    rw [fields.next_setPrev _ _ _ _ inList inX, fields.next_setNext_other _ _ _ _ inPrev inX notLeft,
      fields.next_setNext_other _ _ _ _ inItem inX notItem, fields.next_setPrev _ _ _ _ inItem inX]
  case prev_other =>
    intro x inX notRight notItem
    rw [fields.prev_setPrev_other _ _ _ _ inList inX notRight, fields.prev_setNext _ _ _ _ inPrev inX,
      fields.prev_setNext _ _ _ _ inItem inX, fields.prev_setPrev_other _ _ _ _ inItem inX notItem]

theorem listAddHead_linkedIn (fields : Independent σ S) (inList : S list) (inNext : S (next s list))
    (inItem : S item) (notList : item ≠ list) (notNext : item ≠ next s list) :
    LinkedIn S s (listAddHead s list item) list item (next s list) := by
  have keeps : next (setPrev (setNext s item (next s list)) item list) list = next s list := by
    rw [fields.next_setPrev _ _ _ _ inItem inList, fields.next_setNext_other _ _ _ _ inItem inList notList.symm]
  constructor
  all_goals simp only [listAddHead, keeps]
  case next_left => rw [fields.next_setNext_same _ _ _ inList]
  case prev_item =>
    rw [fields.prev_setNext _ _ _ _ inList inItem, fields.prev_setPrev_other _ _ _ _ inNext inItem notNext,
      fields.prev_setPrev_same _ _ _ inItem]
  case next_item =>
    rw [fields.next_setNext_other _ _ _ _ inList inItem notList, fields.next_setPrev _ _ _ _ inNext inItem,
      fields.next_setPrev _ _ _ _ inItem inItem, fields.next_setNext_same _ _ _ inItem]
  case prev_right =>
    rw [fields.prev_setNext _ _ _ _ inList inNext, fields.prev_setPrev_same _ _ _ inNext]
  case next_other =>
    intro x inX notLeft notItem
    rw [fields.next_setNext_other _ _ _ _ inList inX notLeft, fields.next_setPrev _ _ _ _ inNext inX,
      fields.next_setPrev _ _ _ _ inItem inX, fields.next_setNext_other _ _ _ _ inItem inX notItem]
  case prev_other =>
    intro x inX notRight notItem
    rw [fields.prev_setNext _ _ _ _ inList inX, fields.prev_setPrev_other _ _ _ _ inNext inX notRight,
      fields.prev_setPrev_other _ _ _ _ inItem inX notItem, fields.prev_setNext _ _ _ _ inItem inX]

theorem listDelete_linkedOut (fields : Independent σ S) (inItem : S item) (inPrev : S (prev s item))
    (inNext : S (next s item)) (notPrev : item ≠ prev s item) (notNext : item ≠ next s item) :
    LinkedOut S s (listDelete s item) (prev s item) item (next s item) := by
  have keepsPrev : prev (setPrev s (next s item) (prev s item)) item = prev s item :=
    fields.prev_setPrev_other _ _ _ _ inNext inItem notNext
  have keepsNext : next (setPrev s (next s item) (prev s item)) item = next s item :=
    fields.next_setPrev _ _ _ _ inNext inItem
  constructor
  all_goals simp only [listDelete, keepsPrev, keepsNext]
  case next_left =>
    rw [fields.next_setPrev _ _ _ _ inItem inPrev, fields.next_setNext_other _ _ _ _ inItem inPrev notPrev.symm,
      fields.next_setNext_same _ _ _ inPrev]
  case prev_right =>
    rw [fields.prev_setPrev_other _ _ _ _ inItem inNext notNext.symm, fields.prev_setNext _ _ _ _ inItem inNext,
      fields.prev_setNext _ _ _ _ inPrev inNext, fields.prev_setPrev_same _ _ _ inNext]
  case next_other =>
    intro x inX notLeft notItem
    rw [fields.next_setPrev _ _ _ _ inItem inX, fields.next_setNext_other _ _ _ _ inItem inX notItem,
      fields.next_setNext_other _ _ _ _ inPrev inX notLeft, fields.next_setPrev _ _ _ _ inNext inX]
  case prev_other =>
    intro x inX notRight notItem
    rw [fields.prev_setPrev_other _ _ _ _ inItem inX notItem, fields.prev_setNext _ _ _ _ inItem inX,
      fields.prev_setNext _ _ _ _ inPrev inX, fields.prev_setPrev_other _ _ _ _ inNext inX notRight]

theorem listDelete_clears (fields : Independent σ S) (inItem : S item) :
    prev (listDelete s item) item = null σ ∧ next (listDelete s item) item = null σ := by
  simp only [listDelete]
  constructor
  · rw [fields.prev_setPrev_same _ _ _ inItem]
  · rw [fields.next_setPrev _ _ _ _ inItem inItem, fields.next_setNext_same _ _ _ inItem]

theorem listAddTail_frame {β : Type} {f : σ → β} {T : α → Prop} (fields : Independent σ S) (inList : S list)
    (inItem : S item) (notList : item ≠ list) (quiet : Insulated f T) (list_in : T list)
    (prev_in : T (prev s list)) (item_in : T item) : f (listAddTail s list item) = f s := by
  have keeps : prev (setNext (setPrev s item (prev s list)) item list) list = prev s list := by
    rw [fields.prev_setNext _ _ _ _ inItem inList, fields.prev_setPrev_other _ _ _ _ inItem inList notList.symm]
  simp only [listAddTail, keeps]
  rw [(quiet _ _ _ list_in).1, (quiet _ _ _ prev_in).2, (quiet _ _ _ item_in).2, (quiet _ _ _ item_in).1]

theorem listAddHead_frame {β : Type} {f : σ → β} {T : α → Prop} (fields : Independent σ S) (inList : S list)
    (inItem : S item) (notList : item ≠ list) (quiet : Insulated f T) (list_in : T list)
    (next_in : T (next s list)) (item_in : T item) : f (listAddHead s list item) = f s := by
  have keeps : next (setPrev (setNext s item (next s list)) item list) list = next s list := by
    rw [fields.next_setPrev _ _ _ _ inItem inList, fields.next_setNext_other _ _ _ _ inItem inList notList.symm]
  simp only [listAddHead, keeps]
  rw [(quiet _ _ _ list_in).2, (quiet _ _ _ next_in).1, (quiet _ _ _ item_in).1, (quiet _ _ _ item_in).2]

theorem listDelete_frame {β : Type} {f : σ → β} {T : α → Prop} (fields : Independent σ S) (inItem : S item)
    (inNext : S (next s item)) (notNext : item ≠ next s item) (quiet : Insulated f T) (item_in : T item)
    (prev_in : T (prev s item)) (next_in : T (next s item)) : f (listDelete s item) = f s := by
  have keepsPrev : prev (setPrev s (next s item) (prev s item)) item = prev s item :=
    fields.prev_setPrev_other _ _ _ _ inNext inItem notNext
  simp only [listDelete, keepsPrev]
  rw [(quiet _ _ _ item_in).1, (quiet _ _ _ item_in).2, (quiet _ _ _ prev_in).2, (quiet _ _ _ next_in).1]

end Edits

section Rings

variable {σ α : Type} [NodeStore σ α] {S : α → Prop} {s : σ} {head item entry : α}
  {items left right : List α}

theorem exists_last (head : α) (left : List α) : ∃ before u, head :: left = before ++ [u] :=
  ⟨_, _, (List.dropLast_concat_getLast (List.cons_ne_nil head left)).symm⟩

theorem last_eq {before : List α} {u : α} (atLeft : head :: left = before ++ [u]) :
    left.getLastD head = u := by
  have last := congrArg List.getLast? atLeft
  simpa [List.getLast?_cons] using last

theorem exists_first (head : α) (right : List α) : ∃ v after, right ++ [head] = v :: after := by
  cases right with
  | nil => exact ⟨head, [], rfl⟩
  | cons v right => exact ⟨v, right ++ [head], rfl⟩

theorem last_mem {before : List α} {u : α} (atLeft : head :: left = before ++ [u]) :
    u ∈ head :: (left ++ right) := by
  have member : u ∈ head :: left := by rw [atLeft]; simp
  rw [← List.cons_append]
  exact List.mem_append_left _ member

theorem first_mem {after : List α} {v : α} (atRight : right ++ [head] = v :: after) :
    v ∈ head :: (left ++ right) := by
  have member : v ∈ right ++ [head] := by rw [atRight]; simp
  simp only [List.mem_append, List.mem_cons, List.not_mem_nil, or_false] at member ⊢
  tauto

theorem ring_initialize (fields : Independent σ S) (inside : S head) : Ring (listInitialize s head) head [] := by
  have forward : next (listInitialize s head) head = head := by
    rw [listInitialize, fields.next_setPrev _ _ _ _ inside inside, fields.next_setNext_same _ _ _ inside]
  have backward : prev (listInitialize s head) head = head := by
    rw [listInitialize, fields.prev_setPrev_same _ _ _ inside]
  exact ⟨⟨forward, backward, trivial⟩, by simp⟩

theorem ring_addBefore (fields : Independent σ S) (ring : Ring s head (left ++ entry :: right))
    (inside : ∀ x ∈ head :: (left ++ entry :: right), S x) (inItem : S item)
    (fresh : item ∉ head :: (left ++ entry :: right)) :
    Ring (listAddBefore s entry item) head (left ++ item :: entry :: right) := by
  obtain ⟨before, u, atLeft⟩ := exists_last head left
  have atRight : (entry :: right) ++ [head] = entry :: (right ++ [head]) := rfl
  have middle := (ring.seam atLeft atRight).2.1
  have uMember : u ∈ head :: (left ++ entry :: right) := last_mem atLeft
  have entryMember : entry ∈ head :: (left ++ entry :: right) := by simp
  refine ring.link_in atLeft atRight inside fresh ?_
  rw [← middle.2]
  refine listAddTail_linkedIn fields (inside _ entryMember) ?_ inItem ?_ ?_
  · rw [middle.2]; exact inside _ uMember
  · rintro rfl; exact fresh entryMember
  · rintro rfl; rw [middle.2] at fresh; exact fresh uMember

theorem ring_addTail (fields : Independent σ S) (ring : Ring s head items)
    (inside : ∀ x ∈ head :: items, S x) (inItem : S item) (fresh : item ∉ head :: items) :
    Ring (listAddTail s head item) head (items ++ [item]) := by
  obtain ⟨before, u, atLeft⟩ := exists_last head items
  have atRight : ([] : List α) ++ [head] = head :: [] := rfl
  rw [← List.append_nil items] at ring inside fresh
  have middle := (ring.seam atLeft atRight).2.1
  have uMember : u ∈ head :: (items ++ []) := last_mem atLeft
  refine ring.link_in atLeft atRight inside fresh ?_
  rw [← middle.2]
  refine listAddTail_linkedIn fields (inside _ (by simp)) ?_ inItem ?_ ?_
  · rw [middle.2]; exact inside _ uMember
  · rintro rfl; simp at fresh
  · rintro rfl; rw [middle.2] at fresh; exact fresh uMember

theorem ring_addHead (fields : Independent σ S) (ring : Ring s head items)
    (inside : ∀ x ∈ head :: items, S x) (inItem : S item) (fresh : item ∉ head :: items) :
    Ring (listAddHead s head item) head (item :: items) := by
  obtain ⟨v, after, atRight⟩ := exists_first head items
  have atLeft : head :: ([] : List α) = [] ++ [head] := rfl
  have whole : Ring s head ([] ++ items) := ring
  have middle := (whole.seam atLeft atRight).2.1
  have vMember : v ∈ head :: ([] ++ items) := first_mem atRight
  refine whole.link_in atLeft atRight inside fresh ?_
  rw [← middle.1]
  refine listAddHead_linkedIn fields (inside _ (by simp)) ?_ inItem ?_ ?_
  · rw [middle.1]; exact inside _ vMember
  · rintro rfl; simp at fresh
  · rintro rfl; rw [middle.1] at fresh; exact fresh vMember

theorem ring_addAfter (fields : Independent σ S) (ring : Ring s head (left ++ entry :: right))
    (inside : ∀ x ∈ head :: (left ++ entry :: right), S x) (inItem : S item)
    (fresh : item ∉ head :: (left ++ entry :: right)) :
    Ring (listAddAfter s entry item) head (left ++ entry :: item :: right) := by
  obtain ⟨v, after, atRight⟩ := exists_first head right
  have atLeft : head :: (left ++ [entry]) = (head :: left) ++ [entry] := rfl
  have regrouped : left ++ entry :: right = (left ++ [entry]) ++ right := by simp
  rw [regrouped] at ring inside fresh
  have middle := (ring.seam atLeft atRight).2.1
  have vMember : v ∈ head :: ((left ++ [entry]) ++ right) := first_mem atRight
  have entryMember : entry ∈ head :: ((left ++ [entry]) ++ right) := by simp
  have linked : Ring (listAddAfter s entry item) head ((left ++ [entry]) ++ item :: right) := by
    refine ring.link_in atLeft atRight inside fresh ?_
    rw [← middle.1]
    refine listAddHead_linkedIn fields (inside _ entryMember) ?_ inItem ?_ ?_
    · rw [middle.1]; exact inside _ vMember
    · rintro rfl; exact fresh entryMember
    · rintro rfl; rw [middle.1] at fresh; exact fresh vMember
  simpa using linked

theorem ring_neighbours {before after : List α} {u v : α} (ring : Ring s head (left ++ item :: right))
    (atLeft : head :: left = before ++ [u]) (atRight : right ++ [head] = v :: after) :
    prev s item = u ∧ next s item = v := by
  have fromItem : (item :: right) ++ [head] = item :: (right ++ [head]) := rfl
  have toItem : head :: (left ++ [item]) = (head :: left) ++ [item] := rfl
  have regrouped : Ring s head ((left ++ [item]) ++ right) := by simpa using ring
  exact ⟨(ring.seam atLeft fromItem).2.1.2, (regrouped.seam toItem atRight).2.1.1⟩

theorem ring_delete (fields : Independent σ S) (ring : Ring s head (left ++ item :: right))
    (inside : ∀ x ∈ head :: (left ++ item :: right), S x) :
    Ring (listDelete s item) head (left ++ right) := by
  obtain ⟨before, u, atLeft⟩ := exists_last head left
  obtain ⟨v, after, atRight⟩ := exists_first head right
  obtain ⟨toLeft, toRight⟩ := ring_neighbours ring atLeft atRight
  have same : (head :: (left ++ item :: right)).Perm (item :: head :: (left ++ right)) :=
    (List.perm_middle.cons head).trans (List.Perm.swap item head _)
  obtain ⟨fresh, -⟩ := List.nodup_cons.mp (same.nodup_iff.mp ring.nodup)
  have within : ∀ x ∈ head :: (left ++ right), S x := fun x member =>
    inside x (same.mem_iff.mpr (List.mem_cons_of_mem _ member))
  have uMember : u ∈ head :: (left ++ right) := last_mem atLeft
  have vMember : v ∈ head :: (left ++ right) := first_mem atRight
  refine ring.link_out atLeft atRight within ?_
  rw [← toLeft, ← toRight]
  refine listDelete_linkedOut fields (inside _ (by simp)) ?_ ?_ ?_ ?_
  · rw [toLeft]; exact within _ uMember
  · rw [toRight]; exact within _ vMember
  · rw [toLeft]; rintro rfl; exact fresh uMember
  · rw [toRight]; rintro rfl; exact fresh vMember

/-- The first node of a ring's tail `right` onwards, the head when there is none. -/
theorem ring_next (ring : Ring s head (left ++ item :: right)) : next s item = right.headD head := by
  obtain ⟨before, u, atLeft⟩ := exists_last head left
  obtain ⟨v, after, atRight⟩ := exists_first head right
  rw [(ring_neighbours ring atLeft atRight).2]
  cases right with
  | nil => exact (List.cons.inj atRight).1.symm
  | cons y right => exact (List.cons.inj atRight).1.symm

theorem ring_next_head (ring : Ring s head items) : next s head = items.headD head := by
  cases items with
  | nil => exact ring.links.1
  | cons x items => exact ring.links.1

theorem ring_prev (ring : Ring s head (left ++ item :: right)) : prev s item = left.getLastD head := by
  obtain ⟨before, u, atLeft⟩ := exists_last head left
  obtain ⟨v, after, atRight⟩ := exists_first head right
  rw [(ring_neighbours ring atLeft atRight).1]
  exact (last_eq atLeft).symm

theorem ring_prev_head (ring : Ring s head items) : prev s head = items.getLastD head := by
  obtain ⟨before, u, atLeft⟩ := exists_last head items
  have atRight : ([] : List α) ++ [head] = head :: [] := rfl
  rw [← List.append_nil items] at ring
  rw [(ring.seam atLeft atRight).2.1.2]
  exact (last_eq atLeft).symm

theorem headD_mem (head : α) (items : List α) : items.headD head ∈ head :: items := by
  cases items <;> simp

theorem getLastD_mem (head : α) (items : List α) : items.getLastD head ∈ head :: items := by
  cases items with
  | nil => simp
  | cons x items =>
    have member := List.getLast_mem (List.cons_ne_nil x items)
    rw [List.getLastD_eq_getLast?, List.getLast?_eq_some_getLast (List.cons_ne_nil x items)]
    exact List.mem_cons_of_mem _ member

section Frames

variable {β : Type} {f : σ → β} {T : α → Prop}

theorem ring_addTail_frame (fields : Independent σ S) (ring : Ring s head items)
    (inside : ∀ x ∈ head :: items, S x) (inItem : S item) (fresh : item ∉ head :: items)
    (quiet : Insulated f T) (within : ∀ x ∈ head :: items, T x) (item_in : T item) :
    f (listAddTail s head item) = f s := by
  refine listAddTail_frame fields (inside _ (by simp)) inItem ?_ quiet (within _ (by simp)) ?_ item_in
  · rintro rfl; simp at fresh
  · rw [ring_prev_head ring]; exact within _ (getLastD_mem head items)

theorem ring_addHead_frame (fields : Independent σ S) (ring : Ring s head items)
    (inside : ∀ x ∈ head :: items, S x) (inItem : S item) (fresh : item ∉ head :: items)
    (quiet : Insulated f T) (within : ∀ x ∈ head :: items, T x) (item_in : T item) :
    f (listAddHead s head item) = f s := by
  refine listAddHead_frame fields (inside _ (by simp)) inItem ?_ quiet (within _ (by simp)) ?_ item_in
  · rintro rfl; simp at fresh
  · rw [ring_next_head ring]; exact within _ (headD_mem head items)

theorem ring_addBefore_frame (fields : Independent σ S) (ring : Ring s head (left ++ entry :: right))
    (inside : ∀ x ∈ head :: (left ++ entry :: right), S x) (inItem : S item)
    (fresh : item ∉ head :: (left ++ entry :: right)) (quiet : Insulated f T)
    (within : ∀ x ∈ head :: (left ++ entry :: right), T x) (item_in : T item) :
    f (listAddBefore s entry item) = f s := by
  have entryMember : entry ∈ head :: (left ++ entry :: right) := by simp
  refine listAddTail_frame fields (inside _ entryMember) inItem ?_ quiet (within _ entryMember) ?_ item_in
  · rintro rfl; exact fresh entryMember
  · rw [ring_prev ring]
    apply within
    rw [← List.cons_append]
    exact List.mem_append_left _ (getLastD_mem head left)

theorem ring_addAfter_frame (fields : Independent σ S) (ring : Ring s head (left ++ entry :: right))
    (inside : ∀ x ∈ head :: (left ++ entry :: right), S x) (inItem : S item)
    (fresh : item ∉ head :: (left ++ entry :: right)) (quiet : Insulated f T)
    (within : ∀ x ∈ head :: (left ++ entry :: right), T x) (item_in : T item) :
    f (listAddAfter s entry item) = f s := by
  have entryMember : entry ∈ head :: (left ++ entry :: right) := by simp
  refine listAddHead_frame fields (inside _ entryMember) inItem ?_ quiet (within _ entryMember) ?_ item_in
  · rintro rfl; exact fresh entryMember
  · rw [ring_next ring]
    apply within
    have member := headD_mem head right
    simp only [List.mem_cons, List.mem_append] at member ⊢
    tauto

theorem ring_delete_frame (fields : Independent σ S) (ring : Ring s head (left ++ item :: right))
    (inside : ∀ x ∈ head :: (left ++ item :: right), S x) (quiet : Insulated f T)
    (within : ∀ x ∈ head :: (left ++ item :: right), T x) : f (listDelete s item) = f s := by
  have itemMember : item ∈ head :: (left ++ item :: right) := by simp
  have nextMember : right.headD head ∈ head :: (left ++ item :: right) := by
    have member := headD_mem head right
    simp only [List.mem_cons, List.mem_append] at member ⊢
    tauto
  have prevMember : left.getLastD head ∈ head :: (left ++ item :: right) := by
    rw [← List.cons_append]
    exact List.mem_append_left _ (getLastD_mem head left)
  refine listDelete_frame fields (inside _ itemMember) ?_ ?_ quiet (within _ itemMember) ?_ ?_
  · rw [ring_next ring]; exact inside _ nextMember
  · rw [ring_next ring]
    have same : (head :: (left ++ item :: right)).Perm (item :: head :: (left ++ right)) :=
      (List.perm_middle.cons head).trans (List.Perm.swap item head _)
    have fresh := (List.nodup_cons.mp (same.nodup_iff.mp ring.nodup)).1
    have member := headD_mem head right
    rintro same
    rw [← same] at member
    apply fresh
    simp only [List.mem_cons, List.mem_append] at member ⊢
    tauto
  · rw [ring_prev ring]; exact within _ prevMember
  · rw [ring_next ring]; exact within _ nextMember

end Frames

section Loops

variable [DecidableEq α]

/-- The loop stops at the first remaining entry that satisfies the condition, or at the head. -/
theorem ring_until (ring : Ring s head (left ++ right)) (stop : α → Bool) (fuel : Nat)
    (enough : right.length < fuel) :
    listForEveryEntryUntil s head stop fuel (right.headD head) =
      some ((right.dropWhile fun x => !stop x).headD head) := by
  induction right generalizing left fuel with
  | nil =>
    cases fuel with
    | zero => simp at enough
    | succ fuel => simp [listForEveryEntryUntil]
  | cons x right ih =>
    cases fuel with
    | zero => simp at enough
    | succ fuel =>
      have notHead : x ≠ head := by
        rintro rfl
        exact ring.head_not_mem (by simp)
      have regrouped : Ring s head ((left ++ [x]) ++ right) := by simpa using ring
      by_cases found : stop x
      · simp [listForEveryEntryUntil, notHead, found]
      · have rest := ih regrouped fuel (by simpa using enough)
        simpa [listForEveryEntryUntil, notHead, found, ring_next ring] using rest

theorem ring_fold {β : Type} (ring : Ring s head (left ++ right)) (body : β → α → β) (fuel : Nat)
    (enough : right.length < fuel) (acc : β) :
    listForEveryEntryFold s head body fuel (right.headD head) acc = some (right.foldl body acc) := by
  induction right generalizing left fuel acc with
  | nil =>
    cases fuel with
    | zero => simp at enough
    | succ fuel => simp [listForEveryEntryFold]
  | cons x right ih =>
    cases fuel with
    | zero => simp at enough
    | succ fuel =>
      have notHead : x ≠ head := by
        rintro rfl
        exact ring.head_not_mem (by simp)
      have regrouped : Ring s head ((left ++ [x]) ++ right) := by simpa using ring
      have rest := ih regrouped fuel (by simpa using enough) (body acc x)
      simpa [listForEveryEntryFold, notHead, ring_next ring] using rest

/-- Entry by entry, `P` goes from the whole list to the empty one, whatever the body does to the list behind it. -/
theorem ring_safe (head : α) {β γ : Type} (body : σ → β → α → Option (σ × β)) (key : γ → α) (P : List γ → σ → β → Prop)
    (ring : ∀ todo s acc, P todo s acc → ∃ done, Ring s head (done ++ todo.map key))
    (step : ∀ g todo s acc, P (g :: todo) s acc → ∃ s' acc', body s acc (key g) = some (s', acc') ∧ P todo s' acc')
    (todo : List γ) (s : σ) (acc : β) (fuel : Nat) (start : P todo s acc) (enough : todo.length < fuel) :
    ∃ s' acc', listForEveryEntrySafe head body fuel ((todo.map key).headD head)
      (next s ((todo.map key).headD head)) s acc = some (s', acc') ∧ P [] s' acc' := by
  induction todo generalizing s acc fuel with
  | nil =>
    cases fuel with
    | zero => simp at enough
    | succ fuel => exact ⟨s, acc, by simp [listForEveryEntrySafe], start⟩
  | cons g todo ih =>
    cases fuel with
    | zero => simp at enough
    | succ fuel =>
      obtain ⟨done, before⟩ := ring _ _ _ start
      rw [List.map_cons] at before
      have notHead : key g ≠ head := by
        intro same
        exact before.head_not_mem (by simp [same])
      obtain ⟨s1, acc1, ran, after⟩ := step g todo s acc start
      obtain ⟨s2, acc2, walked, last⟩ := ih s1 acc1 fuel after (by simpa using enough)
      refine ⟨s2, acc2, ?_, last⟩
      simp only [List.map_cons, List.headD_cons, listForEveryEntrySafe, notHead, ite_false, ran, ring_next before,
        Option.bind_eq_bind, Option.bind_some]
      exact walked

end Loops

end Rings

end ThreeX86.Lists
