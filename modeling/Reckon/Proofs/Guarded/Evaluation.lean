import Reckon.Proofs.Guarded.Binary64
import Reckon.Proofs.Guarded.Integer
import Reckon.Proofs.Evaluation.Erasure

/-!
# Guarded evaluation

A function is guarded by its arity: a call looks at the number of its arguments first, and only then
hands them to what carries the function out, which reads each of them by its position. So every
position is taken, by the arity of the one function and by what the other one reads. The two are
given apart from each other here, and for each function what is read is compared with its rule.

Results:
* `binaryOp_eq`, `unaryOp_eq`: the operators are free of faults.
* `carries`: what carries a function out reads no argument that its arity does not grant.
* `apply_eq`: every call is free of faults, whatever its arguments are.
* `eval_eq`: so is the evaluation of every tree.
-/

namespace Reckon.Guarded

/-! ## Operators -/

/-- The power. -/
def power (base exponent : Decimal) : Arithmetic Decimal := do
  match ← toInteger exponent with
  | some n =>
    if n < -2 ^ 63 ∨ 2 ^ 63 ≤ n then fail (.exponentOutOfRange exponent) else powInt base n
  | none => ofResult "'^'" (base.toBinary64.pow exponent.toBinary64)

/-- The value of an operator with one operand. The factorial is the function of that name. -/
def unaryOp (op : UnaryOp) (a : Decimal) : Arithmetic Decimal :=
  match op with
  | .not => return .ofBool a.isZero
  | .factorial => do factorial (← argument [a] 0)

/-- The value of an operator with two operands. -/
def binaryOp (op : BinaryOp) (a b : Decimal) : Arithmetic Decimal :=
  match op with
  | .equal => return .ofBool (a.eqValue b)
  | .notEqual => return .ofBool (!a.eqValue b)
  | .less => return .ofBool (a.ltValue b)
  | .lessEqual => return .ofBool (a.leValue b)
  | .greater => return .ofBool (b.ltValue a)
  | .greaterEqual => return .ofBool (b.leValue a)
  | .shiftLeft => shift "'<<'" true a b
  | .shiftRight => shift "'>>'" false a b
  | .add => add a b
  | .sub => sub a b
  | .mul => a.mul b
  | .div => div a b
  | .mod => rem a b
  | .pow => power a b

theorem power_eq (base exponent : Decimal) : power base exponent = liftM (base.power exponent) := by
  unfold power Decimal.power
  rw [toInteger_eq]
  refine bind_liftM _ fun n => ?_
  cases n with
  | none => exact ofResult_eq _ _
  | some n =>
    by_cases hn : n < -2 ^ 63 ∨ 2 ^ 63 ≤ n
    · simp only [if_pos hn]
      rfl
    · simp only [if_neg hn]
      exact powInt_eq base n

theorem unaryOp_eq (op : UnaryOp) (a : Decimal) : unaryOp op a = liftM (op.eval a) := by
  cases op with
  | not => rfl
  | factorial => exact factorial_eq a

theorem binaryOp_eq (op : BinaryOp) (a b : Decimal) : binaryOp op a b = liftM (op.eval a b) := by
  cases op with
  | shiftLeft => exact shift_eq _ _ a b
  | shiftRight => exact shift_eq _ _ a b
  | add => exact add_eq a b
  | sub => exact sub_eq a b
  | div => exact div_eq a b
  | mod => exact rem_eq a b
  | pow => exact power_eq a b
  | _ => rfl

/-! ## Computations in an environment -/

variable {α : Type}

/-- The result of a guarded operation on numbers. -/
def operate (result : Arithmetic α) : Guarded Evaluation α := ExceptT.mk (.lift result.run)

/-- Runs a computation with a variable of its own. -/
def withLocal (name : String) (body : Guarded Evaluation α) : Guarded Evaluation α :=
  ExceptT.mk (.withLocal name body.run)

/-- The values of several computations, run one after the other. -/
def all : List (Guarded Evaluation α) → Guarded Evaluation (List α)
  | [] => pure []
  | first :: rest => do
    let value ← first
    let values ← all rest
    return value :: values

/-- Assigns a value to the variable that the target is. -/
def toTarget (value : Guarded Evaluation Decimal) : Expr → Guarded Evaluation Decimal
  | .var name => do
    let value ← value
    Evaluation.assign name value
    return value
  | target => (throw (.notAssignable target) : Evaluation Decimal)

theorem operate_eq {x : Arithmetic α} {y : Except ArithmeticError α} (h : x = liftM y) :
    operate x = liftM (Evaluation.lift y) := by
  rw [h]
  cases y <;> rfl

/-- Without faults a guarded computation ends as it does unguarded. -/
theorem run_liftM (m : Evaluation α) (env : Environment) :
    (liftM m : Guarded Evaluation α).run env =
      match m env with
      | .ok a env => .ok (.ok a) env
      | .error e env => .error e env := by
  show EStateM.map Except.ok m env = _
  unfold EStateM.map
  cases m env <;> rfl

theorem withLocal_liftM (name : String) (body : Evaluation α) :
    withLocal name (liftM body) = liftM (Evaluation.withLocal name body) := by
  refine ExceptT.ext (funext fun env => ?_)
  rw [run_liftM]
  show Evaluation.withLocal name (liftM body : Guarded Evaluation α).run env = _
  rw [Evaluation.withLocal, Evaluation.withLocal, run_liftM]
  cases body { env with bindings := env.bindings.erase name } <;> rfl

theorem all_liftM (ms : List (Evaluation α)) :
    all (ms.map fun m => liftM m) = liftM (Evaluation.all ms) := by
  induction ms with
  | nil => rfl
  | cons m rest ih =>
    rw [List.map_cons, all, ih]
    exact bind_liftM _ fun value => bind_liftM _ fun values => rfl

theorem toTarget_liftM (value : Evaluation Decimal) (target : Expr) :
    toTarget (liftM value) target = liftM (Evaluation.toTarget value target) := by
  cases target with
  | var name => exact bind_liftM _ fun value => bind_liftM _ fun _ => rfl
  | _ => rfl

/-! ## Functions -/

/-- What carries out a function of one number: it reads its first argument. -/
def unary (f : Decimal → Arithmetic Decimal) (values : List Decimal) :
    Guarded Evaluation Decimal := do
  let a ← argument values 0
  operate (f a)

/-- What carries out a function of two numbers: it reads its first two arguments. -/
def binary (f : Decimal → Decimal → Arithmetic Decimal) (values : List Decimal) :
    Guarded Evaluation Decimal := do
  let a ← argument values 0
  let b ← argument values 1
  operate (f a b)

/-- What carries out a function of one number or of two. -/
def either (f : Decimal → Arithmetic Decimal) (g : Decimal → Decimal → Arithmetic Decimal) :
    List Decimal → Guarded Evaluation Decimal
  | [a, b] => operate (g a b)
  | values => unary f values

/-- What carries out a function of several numbers. -/
def several (f : List Decimal → Arithmetic Decimal) (values : List Decimal) :
    Guarded Evaluation Decimal := operate (f values)

/-- A random number, whatever the arguments are. -/
def random (_ : List Decimal) : Guarded Evaluation Decimal := do
  let x ← Evaluation.draw
  operate (ofResult "rand" x)

/-- A number of steps of a range from `i` on. -/
def repeatBody (combine : Decimal → Decimal → Arithmetic Decimal)
    (body : Guarded Evaluation Decimal) : Nat → Decimal → Decimal → Guarded Evaluation Decimal
  | 0, _, result => pure result
  | count + 1, i, result => do
    Evaluation.assign loopVariable i
    let value ← body
    let result ← operate (combine result value)
    let i ← operate (add i .one)
    repeatBody combine body count i result

/-- The values of a body over a range, combined from `start` on. There have to be two bounds and a
body. -/
def accumulate (start : Decimal) (combine : Decimal → Decimal → Arithmetic Decimal) :
    List (Guarded Evaluation Decimal) → Guarded Evaluation Decimal
  | [lower, upper, body] => do
    let first ← lower
    let last ← upper
    let last ← operate (roundToScale last .zero .down)
    withLocal loopVariable (repeatBody combine body (Evaluation.steps first last) first start)
  | _ => throw .tooFewArguments

/-- How a function takes its arguments. -/
inductive Implementation
  /-- It gets the values of its arguments. -/
  | eager (run : List Decimal → Guarded Evaluation Decimal)
  /-- It evaluates its arguments itself. -/
  | lazy (run : List (Guarded Evaluation Decimal) → Guarded Evaluation Decimal)

/-- A function of one binary64 number. -/
def elementary (name : String) (f : Binary64 → Binary64) : Implementation :=
  .eager (unary fun a => ofResult name (f a.toBinary64))

/-- A function of two binary64 numbers. -/
def elementary₂ (name : String) (f : Binary64 → Binary64 → Binary64) : Implementation :=
  .eager (binary fun a b => ofResult name (f a.toBinary64 b.toBinary64))

/-- What carries out each function. -/
def implementation : Builtin → Implementation
  | .abs => .eager (unary fun a => return a.abs)
  | .acos => elementary "acos" .acos
  | .asin => elementary "asin" .asin
  | .atan => elementary "atan" .atan
  | .atan2 => elementary₂ "atan2" .atan2
  | .bitAnd => .eager (several (foldBits "BitAnd" Bits.and))
  | .bitNot => .eager (unary invertBits)
  | .bitOr => .eager (several (foldBits "BitOr" Bits.or))
  | .bitXor => .eager (several (foldBits "BitXor" Bits.xor))
  | .cbrt => elementary "cbrt" .cbrt
  | .ceil => .eager (unary fun a => roundToScale a .zero .ceiling)
  | .cos => elementary "cos" .cos
  | .cosh => elementary "cosh" .cosh
  | .exp => elementary "exp" .exp
  | .factorial => .eager (unary factorial)
  | .floor => .eager (unary fun a => roundToScale a .zero .floor)
  | .hypot => elementary₂ "hypot" .hypot
  | .isPrime => .eager (unary isPrime)
  | .log => .eager (either (fun a => ofResult "log" a.toBinary64.log)
      (fun base a => ofResult "log" (base.toBinary64.logBase a.toBinary64)))
  | .log10 => elementary "log10" .log10
  | .log2 => elementary "log2" .log2
  | .logE => elementary "logE" .log
  | .random => .eager random
  | .round => .eager (unary fun a => roundToScale a .zero .halfUp)
  | .sin => elementary "sin" .sin
  | .sinh => elementary "sinh" .sinh
  | .sqrt => elementary "sqrt" .sqrt
  | .tan => elementary "tan" .tan
  | .tanh => elementary "tanh" .tanh
  | .sum => .lazy (accumulate .zero add)
  | .product => .lazy (accumulate .one fun a b => a.mul b)

/-- Hands the arguments to what carries a function out. -/
def Implementation.perform (arguments : List (Guarded Evaluation Decimal)) :
    Implementation → Guarded Evaluation Decimal
  | eager run => do
    let values ← all arguments
    run values
  | lazy run => run arguments

/-- The call of a function under the given name. The number of arguments is looked at first. -/
def apply (f : Builtin) (name : String) (arguments : List (Guarded Evaluation Decimal)) :
    Guarded Evaluation Decimal :=
  if f.arity.accepts arguments.length then (implementation f).perform arguments
  else (throw (.argumentCount name f.arity arguments.length) : Evaluation Decimal)

/-- What carries a rule out, on as many arguments as the rule takes. -/
inductive Carries : Implementation → Rule → Prop
  | unary {g : Decimal → Arithmetic Decimal} {f : Decimal → Except ArithmeticError Decimal}
      (h : ∀ a, g a = liftM (f a)) : Carries (.eager (unary g)) (.unary f)
  | binary {g : Decimal → Decimal → Arithmetic Decimal}
      {f : Decimal → Decimal → Except ArithmeticError Decimal} (h : ∀ a b, g a b = liftM (f a b)) :
      Carries (.eager (binary g)) (.binary f)
  | either {g : Decimal → Arithmetic Decimal} {g' : Decimal → Decimal → Arithmetic Decimal}
      {f : Decimal → Except ArithmeticError Decimal}
      {f' : Decimal → Decimal → Except ArithmeticError Decimal} (h : ∀ a, g a = liftM (f a))
      (h' : ∀ a b, g' a b = liftM (f' a b)) : Carries (.eager (either g g')) (.either f f')
  | several {g : List Decimal → Arithmetic Decimal}
      {f : Decimal → List Decimal → Except ArithmeticError Decimal}
      (h : ∀ a others, g (a :: others) = liftM (f a others)) :
      Carries (.eager (several g)) (.several f)
  | random : Carries (.eager random) .random
  | range {start : Decimal} {g : Decimal → Decimal → Arithmetic Decimal}
      {f : Decimal → Decimal → Except ArithmeticError Decimal} (h : ∀ a b, g a b = liftM (f a b)) :
      Carries (.lazy (accumulate start g)) (.range start f)

theorem carries_elementary (name : String) (f : Binary64 → Binary64) :
    Carries (elementary name f) (Builtin.elementary name f) := .unary fun _ => ofResult_eq _ _

theorem carries_elementary₂ (name : String) (f : Binary64 → Binary64 → Binary64) :
    Carries (elementary₂ name f) (Builtin.elementary₂ name f) := .binary fun _ _ => ofResult_eq _ _

/-- **What carries a function out** fits the rule of the function. -/
theorem carries (f : Builtin) : Carries (implementation f) f.rule := by
  cases f with
  | abs => exact .unary fun _ => rfl
  | bitAnd | bitOr | bitXor => exact .several fun a others => foldBits_eq _ _ a others
  | bitNot => exact .unary invertBits_eq
  | ceil | floor | round => exact .unary fun a => roundToScale_eq a _ _
  | factorial => exact .unary factorial_eq
  | isPrime => exact .unary isPrime_eq
  | log => exact .either (fun _ => ofResult_eq _ _) fun _ _ => ofResult_eq _ _
  | random => exact .random
  | sum => exact .range add_eq
  | product => exact .range fun _ _ => rfl
  | atan2 | hypot => exact carries_elementary₂ _ _
  | _ => exact carries_elementary _ _

theorem repeatBody_liftM {g : Decimal → Decimal → Arithmetic Decimal}
    {f : Decimal → Decimal → Except ArithmeticError Decimal} (h : ∀ a b, g a b = liftM (f a b))
    (body : Evaluation Decimal) (count : Nat) (i result : Decimal) :
    repeatBody g (liftM body) count i result =
      liftM (Evaluation.repeatBody f body count i result) := by
  induction count generalizing i result with
  | zero => rfl
  | succ count ih =>
    rw [repeatBody, Evaluation.repeatBody]
    refine bind_liftM _ fun _ => bind_liftM _ fun value => ?_
    rw [operate_eq (h _ _)]
    refine bind_liftM _ fun result => ?_
    rw [operate_eq (add_eq _ _)]
    exact bind_liftM _ fun i => ih i result

/-- A range with its two bounds and its body. -/
theorem accumulate_liftM (start : Decimal) {g : Decimal → Decimal → Arithmetic Decimal}
    {f : Decimal → Decimal → Except ArithmeticError Decimal} (h : ∀ a b, g a b = liftM (f a b))
    (lower upper body : Evaluation Decimal) :
    accumulate start g [liftM lower, liftM upper, liftM body] =
      liftM (Evaluation.overRange start f lower upper body) := by
  rw [accumulate, Evaluation.overRange]
  refine bind_liftM _ fun first => bind_liftM _ fun last => ?_
  rw [operate_eq (roundToScale_eq _ _ _)]
  refine bind_liftM _ fun last => ?_
  rw [repeatBody_liftM h, withLocal_liftM]

/-- Where there are as many arguments as the rule takes, each one that is read is there. -/
theorem Carries.perform {i : Implementation} {r : Rule} (h : Carries i r)
    {arguments : List (Evaluation Decimal)} {evaluation : Evaluation Decimal}
    (hr : r.perform? arguments = some evaluation) :
    i.perform (arguments.map fun m => liftM m) = liftM evaluation := by
  cases h with
  | unary h =>
    rcases arguments with _ | ⟨a, _ | ⟨b, rest⟩⟩ <;> cases hr
    simp only [Implementation.perform, List.map_cons, List.map_nil, all, bind_assoc, pure_bind]
    exact bind_liftM _ fun a => operate_eq (h a)
  | binary h =>
    rcases arguments with _ | ⟨a, _ | ⟨b, _ | ⟨c, rest⟩⟩⟩ <;> cases hr
    simp only [Implementation.perform, List.map_cons, List.map_nil, all, bind_assoc, pure_bind]
    exact bind_liftM _ fun a => bind_liftM _ fun b => operate_eq (h a b)
  | either h h' =>
    rcases arguments with _ | ⟨a, _ | ⟨b, _ | ⟨c, rest⟩⟩⟩ <;> cases hr <;>
      simp only [Implementation.perform, List.map_cons, List.map_nil, all, bind_assoc, pure_bind]
    · exact bind_liftM _ fun a => operate_eq (h a)
    · exact bind_liftM _ fun a => bind_liftM _ fun b => operate_eq (h' a b)
  | several h =>
    rcases arguments with _ | ⟨a, _ | ⟨b, rest⟩⟩ <;> cases hr
    rw [Implementation.perform, List.map_cons, all, all_liftM]
    simp only [bind_assoc, pure_bind]
    exact bind_liftM _ fun a => bind_liftM _ fun others => operate_eq (h a others)
  | random =>
    rcases arguments with _ | ⟨a, rest⟩ <;> cases hr
    simp only [Implementation.perform, List.map_nil, all, pure_bind]
    exact bind_liftM _ fun x => operate_eq (ofResult_eq "rand" x)
  | range h =>
    rcases arguments with _ | ⟨a, _ | ⟨b, _ | ⟨c, _ | ⟨d, rest⟩⟩⟩⟩ <;> cases hr
    exact accumulate_liftM _ h a b c

/-- **A call** is free of faults, whatever the function and however many arguments there are. -/
theorem apply_eq (f : Builtin) (name : String) (arguments : List (Evaluation Decimal)) :
    apply f name (arguments.map fun m => liftM m) = liftM (f.perform name arguments) := by
  rw [apply, List.length_map]
  by_cases ha : f.arity.accepts arguments.length = true
  · obtain ⟨evaluation, hr, hperform⟩ := Builtin.exists_perform_eq name ha
    rw [if_pos ha, hperform]
    exact (carries f).perform hr
  · rw [if_neg ha, Builtin.perform_of_not_accepts name (by simpa using ha)]

/-- The second argument is missing, unless the number of arguments is looked at first. -/
example : (implementation .atan2).perform [pure .one] = throw (.missingArgument 1 1) := rfl

/-! ## Trees -/

/-- The value of a tree that a variable is bound to. -/
def ofBinding (follow : String → Expr → Guarded Evaluation Decimal) (name : String) :
    Expr → Guarded Evaluation Decimal
  | .num value => pure value
  | tree => follow name tree

mutual

/-- The evaluation of an expression, where `follow` evaluates the trees that variables are bound
to. -/
def evalWith (follow : String → Expr → Guarded Evaluation Decimal) :
    Expr → Guarded Evaluation Decimal
  | .num value => pure value
  | .var name => do
    let tree ← Evaluation.lookup name
    ofBinding follow name tree
  | .unary op operand => do
    let a ← evalWith follow operand
    operate (unaryOp op a)
  | .binary op left right => do
    let a ← evalWith follow left
    let b ← evalWith follow right
    operate (binaryOp op a b)
  | .assign target value => toTarget (evalWith follow value) target
  | .call name f arguments => apply f name (evalAllWith follow arguments)

/-- The evaluations of several expressions. -/
def evalAllWith (follow : String → Expr → Guarded Evaluation Decimal) :
    List Expr → List (Guarded Evaluation Decimal)
  | [] => []
  | e :: rest => evalWith follow e :: evalAllWith follow rest

end

/-- The evaluation of an expression that follows the trees of variables to the given depth. -/
def evalTo : Nat → Expr → Guarded Evaluation Decimal
  | 0 => evalWith fun name _ => (throw (.endlessVariable name) : Evaluation Decimal)
  | depth + 1 => evalWith fun _ tree => evalTo depth tree

/-- The evaluation of an expression. -/
def eval (e : Expr) : Guarded Evaluation Decimal := evalTo Expr.followDepth e

section

variable {g : String → Expr → Guarded Evaluation Decimal}
  {follow : String → Expr → Evaluation Decimal}

theorem ofBinding_eq (h : ∀ name tree, g name tree = liftM (follow name tree)) (name : String)
    (tree : Expr) : ofBinding g name tree = liftM (Evaluation.ofBinding follow name tree) := by
  cases tree with
  | num value => rfl
  | _ => exact h name _

theorem evalAllWith_eq_map (arguments : List Expr) :
    evalAllWith g arguments = arguments.map (evalWith g) := by
  induction arguments with
  | nil => rfl
  | cons first rest ih => rw [evalAllWith, ih, List.map_cons]

theorem evalWith_eq (h : ∀ name tree, g name tree = liftM (follow name tree)) (e : Expr) :
    evalWith g e = liftM (Expr.evalWith follow e) := by
  induction e using Expr.induction with
  | num value => rw [evalWith, Expr.evalWith]; rfl
  | var name =>
    rw [evalWith, Expr.evalWith]
    exact bind_liftM _ fun tree => ofBinding_eq h name tree
  | unary op operand ih =>
    rw [evalWith, Expr.evalWith, ih]
    exact bind_liftM _ fun a => operate_eq (unaryOp_eq op a)
  | binary op left right ihl ihr =>
    rw [evalWith, Expr.evalWith, ihl, ihr]
    exact bind_liftM _ fun a => bind_liftM _ fun b => operate_eq (binaryOp_eq op a b)
  | assign target value _ ih => rw [evalWith, Expr.evalWith, ih, toTarget_liftM]
  | call name f arguments ih =>
    rw [evalWith, Expr.evalWith, evalAllWith_eq_map, Expr.evalAllWith_eq_map, ← apply_eq,
      List.map_map, List.map_congr_left ih]
    rfl

end

theorem evalTo_eq (depth : Nat) (e : Expr) : evalTo depth e = liftM (Expr.evalTo depth e) := by
  induction depth generalizing e with
  | zero => exact evalWith_eq (fun _ _ => rfl) e
  | succ depth ih => exact evalWith_eq (fun _ tree => ih tree) e

/-- **The evaluation of a tree** is free of faults, in every environment. -/
theorem eval_eq (e : Expr) : eval e = liftM e.eval := evalTo_eq _ e

end Reckon.Guarded
