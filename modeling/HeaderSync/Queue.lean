/-!
# Queues

A queue is pushed at the back and popped at the front. It is kept as a front list and a reversed
back list; `toList` is its content in order, and every operation is described through it.
-/

namespace HeaderSync

structure Queue (α : Type) where
  front : List α
  back : List α
  size : Nat
  size_eq : size = front.length + back.length

namespace Queue
variable {α : Type}

def empty : Queue α := ⟨[], [], 0, rfl⟩

def toList (q : Queue α) : List α := q.front ++ q.back.reverse

def isEmpty (q : Queue α) : Bool := q.size = 0

def push (q : Queue α) (a : α) : Queue α :=
  ⟨q.front, a :: q.back, q.size + 1, by simp [q.size_eq, Nat.add_assoc]⟩

/-- The first element and the rest; an empty front list takes over the reversed back list. -/
def pop? (q : Queue α) : Option (α × Queue α) :=
  match q with
  | ⟨a :: front, back, size, h⟩ =>
    some (a, ⟨front, back, size - 1, by simp only [List.length_cons] at h; omega⟩)
  | ⟨[], back, size, h⟩ =>
    match hr : back.reverse with
    | [] => none
    | a :: front =>
      some (a, ⟨front, [], size - 1, by
        have := congrArg List.length hr
        simp only [List.length_reverse, List.length_cons, List.length_nil] at this h ⊢
        omega⟩)

@[simp] theorem toList_empty : (empty : Queue α).toList = [] := rfl

@[simp] theorem toList_push (q : Queue α) (a : α) : (q.push a).toList = q.toList ++ [a] := by
  simp [toList, push]

@[simp] theorem length_toList (q : Queue α) : q.toList.length = q.size := by
  simp [toList, q.size_eq]

theorem toList_pop? (q : Queue α) :
    q.pop?.map (fun (a, rest) => (a, rest.toList)) =
      match q.toList with
      | [] => none
      | a :: rest => some (a, rest) := by
  rcases q with ⟨_ | ⟨a, front⟩, back, size, h⟩
  · simp only [pop?, toList, List.nil_append]
    split <;> simp_all
  · rfl

theorem toList_of_pop? {q rest : Queue α} {a : α} (h : q.pop? = some (a, rest)) :
    q.toList = a :: rest.toList := by
  have hq := toList_pop? q
  rw [h] at hq
  cases hl : q.toList with
  | nil => simp [hl] at hq
  | cons b bs =>
    simp only [hl, Option.map_some, Option.some.injEq, Prod.mk.injEq] at hq
    rw [hq.1, hq.2]

theorem size_of_pop? {q rest : Queue α} {a : α} (h : q.pop? = some (a, rest)) :
    q.size = rest.size + 1 := by
  rw [← q.length_toList, toList_of_pop? h, List.length_cons, rest.length_toList]

theorem pop?_eq_none {q : Queue α} (h : q.pop? = none) : q.toList = [] := by
  have hq := toList_pop? q
  rw [h] at hq
  cases hl : q.toList with
  | nil => rfl
  | cons b bs => simp [hl] at hq

theorem size_eq_zero_of_pop? {q : Queue α} (h : q.pop? = none) : q.size = 0 := by
  rw [← q.length_toList, pop?_eq_none h, List.length_nil]

theorem exists_pop?_of_toList {q : Queue α} {a : α} {as : List α} (h : q.toList = a :: as) :
    ∃ rest, q.pop? = some (a, rest) ∧ rest.toList = as := by
  cases hp : q.pop? with
  | none => simp [pop?_eq_none hp] at h
  | some r =>
    obtain ⟨b, rest⟩ := r
    have hq := toList_of_pop? hp
    rw [h] at hq
    obtain ⟨rfl, rfl⟩ := List.cons.inj hq
    exact ⟨rest, rfl, rfl⟩

end Queue
end HeaderSync
