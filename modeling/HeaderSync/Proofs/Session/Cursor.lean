import HeaderSync.Proofs.Linkage
import HeaderSync.Session.Rules

/-!
# Following a run of headers

`follow` moves a cursor along a run of headers. A cursor admits the run if every header of it may
follow the ones before, so that neither its parent nor its bits are refused.
-/

namespace HeaderSync
attribute [local irreducible] Header.id Compact.work

/-- At low heights any header passes. -/
theorem Window.permits_of_le {p : Params} {height : Nat}
    (h : height ≤ p.switchHeight.toNat + p.window) (w : Window) (last next : Stamp) :
    w.permits p last next height = .ok true := by
  apply if_pos
  simp [h]

namespace Cursor

def follow (p : Params) (c : Cursor) (hs : List Header) : Cursor := hs.foldl (advance p) c

def Admits (p : Params) (c : Cursor) : List Header → Prop
  | [] => True
  | h :: rest => c.refusal? p h = .ok none ∧ Admits p (c.advance p h) rest

variable {p : Params}

theorem follow_append (c : Cursor) (xs ys : List Header) :
    c.follow p (xs ++ ys) = (c.follow p xs).follow p ys := List.foldl_append

theorem follow_singleton (c : Cursor) (h : Header) : c.follow p [h] = c.advance p h := rfl

@[simp] theorem id_follow (c : Cursor) (hs : List Header) :
    (c.follow p hs).id = tipId c.id hs := by
  induction hs generalizing c with
  | nil => rfl
  | cons h rest ih => exact ih (c.advance p h)

@[simp] theorem height_follow (c : Cursor) (hs : List Header) :
    (c.follow p hs).height = c.height + hs.length := by
  induction hs generalizing c with
  | nil => rfl
  | cons h rest ih =>
    have hrest : (c.follow p (h :: rest)).height = c.height + 1 + rest.length :=
      ih (c.advance p h)
    rw [hrest, List.length_cons]
    omega

@[simp] theorem work_follow (c : Cursor) (hs : List Header) :
    (c.follow p hs).work = totalWork c.work hs := by
  induction hs generalizing c with
  | nil => rfl
  | cons h rest ih => exact ih (c.advance p h)

theorem admits_append (c : Cursor) (xs ys : List Header) :
    c.Admits p (xs ++ ys) ↔ c.Admits p xs ∧ (c.follow p xs).Admits p ys := by
  induction xs generalizing c with
  | nil => simp [Admits, follow]
  | cons h rest ih =>
    simp only [List.cons_append, Admits, ih, and_assoc]
    rfl

theorem admits_singleton {c : Cursor} {h : Header} :
    c.Admits p [h] ↔ c.refusal? p h = .ok none := by simp [Admits]

/-- Only a header that names the cursor's identity as its parent is not refused. -/
theorem parent_eq_of_refusal? {c : Cursor} {h : Header} (hr : c.refusal? p h = .ok none) :
    h.parent = c.id := by
  by_cases hp : h.parent = c.id
  · exact hp
  · simp [refusal?, hp] at hr

/-- At low heights only the parent of a header matters. -/
theorem refusal?_of_link {c : Cursor} {h : Header} (hlink : h.parent = c.id)
    (hlow : c.height + 1 ≤ p.switchHeight.toNat + p.window) : c.refusal? p h = .ok none := by
  rw [refusal?, if_neg (not_not_intro hlink), Window.permits_of_le hlow]
  rfl

theorem linkedFrom_of_admits {c : Cursor} {hs : List Header} (ha : c.Admits p hs) :
    LinkedFrom c.id hs := by
  induction hs generalizing c with
  | nil => trivial
  | cons h rest ih => exact ⟨parent_eq_of_refusal? ha.1, ih ha.2⟩

end Cursor
end HeaderSync
