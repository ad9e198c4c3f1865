import Reckon.Expr.Basic

/-!
# Bindings

The variables that are bound, each to a tree. An assignment binds a variable to a number; a tree
that is no number is evaluated whenever the variable is read. Follows `variable`, `set_variable`,
`take_variable` and `restore_variable` (specification, 3).

Results:
* `get?_insert`, `get?_erase`, `get?_restore`: what each operation does to the look-up of every
  name.
-/

namespace Reckon

/-- The bound variables. -/
structure Bindings where
  entries : List (String × Expr)

namespace Bindings

/-- No variable is bound. -/
def empty : Bindings := ⟨[]⟩

/-- The tree that a variable is bound to. -/
def get? (b : Bindings) (name : String) : Option Expr := b.entries.lookup name

/-- The variable no longer bound. -/
def erase (b : Bindings) (name : String) : Bindings :=
  ⟨b.entries.filter fun entry => entry.1 ≠ name⟩

/-- The variable bound to a tree, whatever it was bound to before. -/
def insert (b : Bindings) (name : String) (tree : Expr) : Bindings :=
  ⟨(name, tree) :: (b.erase name).entries⟩

/-- The variable bound as it was when its binding was looked up. -/
def restore (b : Bindings) (name : String) : Option Expr → Bindings
  | some tree => b.insert name tree
  | none => b.erase name

/-- The number that a variable is bound to, if it is bound to one. -/
def number? (b : Bindings) (name : String) : Option Decimal :=
  match b.get? name with
  | some (.num value) => some value
  | _ => none

@[simp] theorem get?_empty (name : String) : empty.get? name = none := rfl

@[simp] theorem get?_erase (b : Bindings) (name other : String) :
    (b.erase name).get? other = if other = name then none else b.get? other := by
  obtain ⟨entries⟩ := b
  simp only [erase, get?]
  induction entries with
  | nil => simp
  | cons entry rest ih =>
    obtain ⟨key, tree⟩ := entry
    by_cases hk : key = name
    · rw [List.filter_cons_of_neg (by simpa using hk), ih]
      split
      · rfl
      · rename_i ho
        have hb : (other == key) = false := by simpa [hk] using ho
        simp [List.lookup_cons, hb]
    · rw [List.filter_cons_of_pos (by simpa using hk), List.lookup_cons, List.lookup_cons, ih]
      cases hb : other == key with
      | true =>
        have ho : other ≠ name := by
          rintro rfl
          exact hk (by simpa using hb : other = key).symm
        simp [ho]
      | false => rfl

@[simp] theorem get?_insert (b : Bindings) (name other : String) (tree : Expr) :
    (b.insert name tree).get? other = if other = name then some tree else b.get? other := by
  have h := get?_erase b name other
  by_cases ho : other = name
  · subst ho
    simp [insert, get?]
  · have hb : (other == name) = false := by simpa using ho
    simp only [get?, if_neg ho] at h ⊢
    simp [insert, List.lookup_cons, hb, h]

@[simp] theorem get?_restore (b : Bindings) (name other : String) (saved : Option Expr) :
    (b.restore name saved).get? other = if other = name then saved else b.get? other := by
  cases saved <;> simp [restore]

end Bindings

end Reckon
