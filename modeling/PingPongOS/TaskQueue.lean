import Mathlib

/-!
# The queue of `queue.c`

A queue is split at its iterator: the items before the node the iterator stands
on, and the items from that node on.  The iterator is `NULL` when nothing is
left.  Nodes are always allocated: `malloc` is taken to succeed.

A loop over a queue takes its items from `queue_head` and `queue_next` and may
change the queue on the way; `whileItem` is that loop with a budget of steps.
-/

namespace PingPongOS

def error : Int := -1

def noError : Int := 0

/-- `struct queue_t`, split at the iterator. -/
structure Queue (α : Type) where
  passed : List α
  rest : List α
  deriving DecidableEq

/-- A computation goes on where its first part has not failed. -/
theorem bind_eq_ok {α β ε : Type} {x : Except ε α} {f : α → Except ε β} {b : β} :
    x >>= f = .ok b ↔ ∃ a, x = .ok a ∧ f a = .ok b := by
  cases x with
  | error e => simp [bind, Except.bind]
  | ok a => simp [bind, Except.bind]

/-- A `while` loop that runs `body` on each item and takes the next one from
`next`; when the budget runs out with an item left the loop is `endless`. -/
def whileItem {σ α ε : Type} (endless : ε) (next : σ → Option α × σ)
    (body : σ → α → Except ε σ) : Nat → Option α → σ → Except ε σ
  | _, none, s => .ok s
  | 0, some _, _ => .error endless
  | budget + 1, some x, s => do
      let s ← body s x
      whileItem endless next body budget (next s).1 (next s).2

/-- **A loop over items ends** when each round keeps the invariant and leaves less
ahead. -/
theorem whileItem_ok {σ α ε : Type} (endless : ε) {next : σ → Option α × σ}
    {body : σ → α → Except ε σ} (inv : Option α → σ → Prop) (ahead : σ → Nat)
    (hround : ∀ x s, inv (some x) s → ∃ s', body s x = .ok s' ∧
      inv (next s').1 (next s').2 ∧ ahead (next s').2 < ahead s)
    (budget : Nat) {o : Option α} {s : σ} (hinv : inv o s) (hle : ahead s ≤ budget) :
    ∃ s', whileItem endless next body budget o s = .ok s' ∧ inv none s' := by
  induction budget generalizing o s with
  | zero =>
      cases o with
      | none => exact ⟨s, rfl, hinv⟩
      | some x =>
          obtain ⟨s', -, -, hlt⟩ := hround x s hinv
          omega
  | succ n ih =>
      cases o with
      | none => exact ⟨s, rfl, hinv⟩
      | some x =>
          obtain ⟨s', hbody, hinv', hlt⟩ := hround x s hinv
          obtain ⟨s'', hrest, hdone⟩ := ih hinv' (by omega)
          refine ⟨s'', ?_, hdone⟩
          rw [whileItem, hbody]
          exact hrest

/-- A loop over items keeps what each round keeps, if it ends. -/
theorem whileItem_keeps {σ α ε : Type} {endless : ε} {next : σ → Option α × σ}
    {body : σ → α → Except ε σ} (inv : Option α → σ → Prop)
    (hround : ∀ x s s', inv (some x) s → body s x = .ok s' → inv (next s').1 (next s').2)
    {budget : Nat} {o : Option α} {s s' : σ} (hinv : inv o s)
    (hs : whileItem endless next body budget o s = .ok s') : inv none s' := by
  induction budget generalizing o s with
  | zero =>
      cases o with
      | none => exact Except.ok.inj hs ▸ hinv
      | some x => exact absurd hs (by simp [whileItem])
  | succ n ih =>
      cases o with
      | none => exact Except.ok.inj hs ▸ hinv
      | some x =>
          obtain ⟨s₁, hbody, hrest⟩ := bind_eq_ok.mp hs
          exact ih (hround x s s₁ hinv hbody) hrest

section

variable {α : Type}

namespace Queue

/-- The items in order. -/
def items (q : Queue α) : List α := q.passed ++ q.rest

end Queue

def queueCreate : Queue α := ⟨[], []⟩

/-- `queue_add`: the first item of an empty queue gets the iterator. -/
def queueAdd (q : Queue α) (x : α) : Queue α :=
  match q.passed, q.rest with
  | [], [] => ⟨[], [x]⟩
  | passed, [] => ⟨passed ++ [x], []⟩
  | passed, rest => ⟨passed, rest ++ [x]⟩

/-- `queue_del`: remove the first occurrence; an iterator that stood on it moves
to the next node. -/
def queueDel [DecidableEq α] (q : Queue α) (x : α) : Int × Queue α :=
  if x ∈ q.passed then (noError, ⟨q.passed.erase x, q.rest⟩)
  else if x ∈ q.rest then (noError, ⟨q.passed, q.rest.erase x⟩)
  else (error, q)

def queueSize (q : Queue α) : Nat := q.items.length

def queueHead (q : Queue α) : Option α × Queue α := (q.items.head?, ⟨[], q.items⟩)

def queueNext (q : Queue α) : Option α × Queue α :=
  match q.rest with
  | [] => (none, q)
  | x :: rest => (rest.head?, ⟨q.passed ++ [x], rest⟩)

def queueItem (q : Queue α) : Option α := q.rest.head?

/-! ## What the operations do to the items -/

theorem queueAdd_items (q : Queue α) (x : α) : (queueAdd q x).items = q.items ++ [x] := by
  obtain ⟨passed, rest⟩ := q
  cases passed with
  | nil =>
      cases rest with
      | nil => rfl
      | cons y rest => rfl
  | cons z passed =>
      cases rest with
      | nil => simp [queueAdd, Queue.items]
      | cons y rest => simp [queueAdd, Queue.items]

/-- With the iterator at the head, `queue_add` leaves it there. -/
theorem queueAdd_of_passed {q : Queue α} (h : q.passed = []) (x : α) :
    queueAdd q x = ⟨[], q.items ++ [x]⟩ := by
  obtain ⟨passed, rest⟩ := q
  obtain rfl : passed = [] := h
  cases rest with
  | nil => rfl
  | cons y rest => rfl

/-- With the iterator at the head, `queue_item` is the first item. -/
theorem queueItem_of_passed {q : Queue α} (h : q.passed = []) : queueItem q = q.items.head? := by
  obtain ⟨passed, rest⟩ := q
  obtain rfl : passed = [] := h
  rfl

/-- With the iterator at the head, `queue_head` does nothing. -/
theorem queueHead_of_passed {q : Queue α} (h : q.passed = []) : (queueHead q).2 = q := by
  obtain ⟨passed, rest⟩ := q
  obtain rfl : passed = [] := h
  rfl

@[simp] theorem queueHead_items (q : Queue α) : (queueHead q).2.items = q.items := rfl

@[simp] theorem queueHead_fst (q : Queue α) : (queueHead q).1 = q.items.head? := rfl

@[simp] theorem queueNext_items (q : Queue α) : (queueNext q).2.items = q.items := by
  obtain ⟨passed, rest⟩ := q
  cases rest with
  | nil => rfl
  | cons y rest => simp [queueNext, Queue.items]

/-- `queue_next` returns the item the iterator then stands on. -/
theorem queueNext_fst (q : Queue α) : (queueNext q).1 = queueItem (queueNext q).2 := by
  obtain ⟨passed, rest⟩ := q
  cases rest with
  | nil => rfl
  | cons y rest => rfl

theorem queueDel_items [DecidableEq α] {q : Queue α} {x : α} (hx : x ∈ q.items) :
    (queueDel q x).1 = noError ∧ (queueDel q x).2.items = q.items.erase x := by
  obtain ⟨passed, rest⟩ := q
  simp only [Queue.items] at hx ⊢
  by_cases hpassed : x ∈ passed
  · rw [queueDel, if_pos hpassed, List.erase_append_left rest hpassed]
    exact ⟨rfl, rfl⟩
  · have hrest : x ∈ rest := by
      rcases List.mem_append.mp hx with h | h
      · exact absurd h hpassed
      · exact h
    rw [queueDel, if_neg hpassed, if_pos hrest, List.erase_append_right rest hpassed]
    exact ⟨rfl, rfl⟩

theorem queueDel_of_not_mem [DecidableEq α] {q : Queue α} {x : α} (hx : x ∉ q.items) :
    queueDel q x = (error, q) := by
  simp only [Queue.items, List.mem_append, not_or] at hx
  simp only [queueDel, if_neg hx.1, if_neg hx.2]

/-- `queue_del` of the head leaves the rest. -/
theorem queueDel_head [DecidableEq α] {q : Queue α} {x : α} (hhead : q.items.head? = some x) :
    (queueDel q x).2.items = q.items.tail := by
  rw [(queueDel_items (List.mem_of_mem_head? hhead)).2]
  cases hq : q.items with
  | nil =>
      rw [hq] at hhead
      exact absurd hhead (by simp)
  | cons y rest =>
      rw [hq] at hhead
      obtain rfl := Option.some.inj hhead
      simp

/-- `queue_del` does not put items behind the iterator. -/
theorem queueDel_passed [DecidableEq α] {q : Queue α} (h : q.passed = []) (x : α) :
    (queueDel q x).2.passed = [] := by
  obtain ⟨passed, rest⟩ := q
  obtain rfl : passed = [] := h
  by_cases hx : x ∈ rest
  · simp [queueDel, hx]
  · simp [queueDel, hx]

/-- `queue_del` never leaves more ahead of the iterator. -/
theorem queueDel_rest_le [DecidableEq α] (q : Queue α) (x : α) :
    (queueDel q x).2.rest.length ≤ q.rest.length := by
  unfold queueDel
  by_cases hpassed : x ∈ q.passed
  · rw [if_pos hpassed]
  by_cases hrest : x ∈ q.rest
  · rw [if_neg hpassed, if_pos hrest]
    exact List.length_erase_le
  · rw [if_neg hpassed, if_neg hrest]

end

end PingPongOS
