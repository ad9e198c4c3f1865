import Reckon.Evaluation.Basic
import Reckon.Proofs.Except
import Reckon.Proofs.Token.Scan

/-!
# Guarded computations

Some operations that an evaluation is made of are partial: an argument is read by its position, a
text is cut at a byte offset, a length is subtracted from a length, a number is divided by another
one. Here each of them is a function that gives a `Fault` where it is not defined. A guarded
computation does its partial operations in this way, so it runs into a fault as soon as one of them
is applied outside its domain.

A computation `m` that has no partial operations is a guarded one too, `liftM m`. To say that a
guarded computation is equal to `liftM m` says that it never runs into a fault and that it does what
`m` does.

Results:
* `cutAt_append`, `subtract_ok`, `toLength_ok`, `nonzero_ok`: the partial operations inside their
  domains.
* `bind_liftM`, `bind_liftM_congr`: computations in several steps.
-/

namespace Reckon

/-- A partial operation applied outside its domain. -/
inductive Fault
  /-- The argument at this position of so many is read. -/
  | missingArgument (position count : Nat)
  /-- A function has too few arguments to begin with. -/
  | tooFewArguments
  /-- A text is cut inside a character or beyond its end. -/
  | misplacedCut (offset : Nat)
  /-- A number is taken from a smaller one. -/
  | negativeDifference (m n : Nat)
  /-- The number is no length that 64 bits can hold. -/
  | noLength (n : Int)
  /-- The divisor is zero. -/
  | zeroDivisor
  /-- A decimal is to be brought to a smaller scale by appending zeros. -/
  | loweredScale (old new : Scale)

/-- A computation that runs into a fault where it applies a partial operation outside its domain. -/
abbrev Guarded (m : Type → Type) (α : Type) := ExceptT Fault m α

namespace Guarded

variable {m : Type → Type} [Monad m] {α β : Type}

/-! ## Partial operations -/

/-- The argument at a position, counted from zero. -/
def argument (values : List α) (position : Nat) : Except Fault α :=
  match values[position]? with
  | some value => .ok value
  | none => .error (.missingArgument position values.length)

/-- The text in front of a byte offset and the text behind it. -/
def cutAt : List Char → Nat → Except Fault (List Char × List Char)
  | text, 0 => .ok ([], text)
  | [], offset => .error (.misplacedCut offset)
  | c :: rest, offset =>
    if c.utf8Size ≤ offset then
      (cutAt rest (offset - c.utf8Size)).map fun (front, back) => (c :: front, back)
    else .error (.misplacedCut offset)

/-- The difference of two natural numbers. -/
def subtract (m n : Nat) : Except Fault Nat :=
  if n ≤ m then .ok (m - n) else .error (.negativeDifference m n)

/-- An integer as a length, a natural number of 64 bits. -/
def toLength (n : Int) : Except Fault Nat :=
  if 0 ≤ n ∧ n < 2 ^ 64 then .ok n.toNat else .error (.noLength n)

/-- A number that something is divided by. -/
def nonzero [Zero α] [DecidableEq α] (divisor : α) : Except Fault α :=
  if divisor = 0 then .error .zeroDivisor else .ok divisor

@[simp] theorem cutAt_zero (text : List Char) : cutAt text 0 = .ok ([], text) := by
  unfold cutAt
  rfl

/-- A text can be cut at the length of what it begins with. -/
theorem cutAt_append (front back : List Char) :
    cutAt (front ++ back) (byteLength front) = .ok (front, back) := by
  induction front with
  | nil => exact cutAt_zero back
  | cons c rest ih =>
    have hpos := c.utf8Size_pos
    rw [byteLength_cons, List.cons_append, cutAt, if_pos (Nat.le_add_right _ _),
      Nat.add_sub_cancel_left, ih]
    · rfl
    · omega

theorem subtract_ok {m n : Nat} (h : n ≤ m) : subtract m n = .ok (m - n) := if_pos h

theorem toLength_ok {n : Int} (h : 0 ≤ n) (hlt : n < 2 ^ 64) : toLength n = .ok n.toNat :=
  if_pos ⟨h, hlt⟩

theorem nonzero_ok [Zero α] [DecidableEq α] {divisor : α} (h : divisor ≠ 0) :
    nonzero divisor = .ok divisor := if_neg h

/-! ## Computations in several steps -/

/-- A partial operation inside its domain is a value. -/
@[simp] theorem liftM_ok (a : α) : (liftM (.ok a : Except Fault α) : Guarded m α) = pure a := rfl

variable [LawfulMonad m]

theorem bind_liftM (x : m α) {f : α → Guarded m β} {g : α → m β} (h : ∀ a, f a = liftM (g a)) :
    (liftM x >>= f : Guarded m β) = liftM (x >>= g) := by
  rw [liftM_bind]
  exact bind_congr h

/-- The second step need only be free of faults for what the first step gives. -/
theorem bind_liftM_congr {ε : Type} {x : Except ε α} {f : α → Guarded (Except ε) β}
    {g : α → Except ε β} (h : ∀ a, x = .ok a → f a = liftM (g a)) :
    (liftM x >>= f : Guarded (Except ε) β) = liftM (x >>= g) := by
  cases x with
  | error e => rfl
  | ok a => exact h a rfl

end Guarded

end Reckon
