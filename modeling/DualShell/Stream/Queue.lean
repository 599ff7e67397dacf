/-!
# Queues

A first-in first-out queue that counts its elements. Elements are added at the back and taken from the front; the back
is kept in reverse, so that a write costs its own length and not that of the queue. `toList` is the view: front to back.
-/

namespace DualShell

/-- A queue: the elements at the front in order, those at the back in reverse, and their number. -/
structure Queue (α : Type) where
  front : List α
  back : List α
  size : Nat
  size_eq : size = front.length + back.length

namespace Queue

variable {α : Type}

/-- The queue without elements. -/
def empty : Queue α := ⟨[], [], 0, rfl⟩

instance : Inhabited (Queue α) := ⟨empty⟩

/-- The elements from front to back. -/
def toList (q : Queue α) : List α :=
  q.front ++ q.back.reverse

/-- The queue of a list. -/
def ofList (xs : List α) : Queue α :=
  ⟨xs, [], xs.length, rfl⟩

/-- Add elements at the back. -/
def append (q : Queue α) (xs : List α) : Queue α where
  front := q.front
  back := xs.reverse ++ q.back
  size := q.size + xs.length
  size_eq := by simp [q.size_eq]; omega

/-- Take the first elements, at most `n` of them. -/
def take (q : Queue α) (n : Nat) : List α × Queue α :=
  if n ≤ q.front.length then
    (q.front.take n, ⟨q.front.drop n, q.back, (q.front.drop n).length + q.back.length, rfl⟩)
  else (q.toList.take n, ofList (q.toList.drop n))

@[simp] theorem toList_empty : (empty : Queue α).toList = [] := rfl

@[simp] theorem toList_ofList (xs : List α) : (ofList xs).toList = xs := by
  simp [ofList, toList]

/-- What is appended comes last. -/
@[simp] theorem toList_append (q : Queue α) (xs : List α) : (q.append xs).toList = q.toList ++ xs := by
  simp [append, toList]

theorem size_eq_length (q : Queue α) : q.size = q.toList.length := by
  simp [toList, q.size_eq]

/-- The front of a queue is the front of its list. -/
@[simp] theorem take_fst (q : Queue α) (n : Nat) : (q.take n).1 = q.toList.take n := by
  unfold take
  split
  · rename_i h
    simp [toList, List.take_append_of_le_length h]
  · rfl

/-- What is left of a queue is what is left of its list. -/
@[simp] theorem toList_take_snd (q : Queue α) (n : Nat) : (q.take n).2.toList = q.toList.drop n := by
  unfold take
  split
  · rename_i h
    simp [toList, List.drop_append_of_le_length h]
  · simp

end Queue

end DualShell
