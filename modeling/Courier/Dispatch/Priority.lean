/-!
Priorities of work: high, default and low, taken in that order. A priority is also given by its
number (0, 1, 2); any other number stands for the default priority.
-/

set_option autoImplicit false

namespace Courier.Dispatch

/-- The three priorities, most urgent first. -/
inductive Priority where
  | high
  | normal
  | low
deriving DecidableEq, Repr, Inhabited

namespace Priority

/-- All priorities in the order workers look at them. -/
def all : List Priority := [high, normal, low]

/-- The priority's name in labels. -/
def label : Priority → String
  | high => "high"
  | normal => "default"
  | low => "low"

/-- The priority of a number; numbers outside 0..2 give the default priority. -/
def ofInt (n : Int) : Priority :=
  if n = 0 then high else if n = 2 then low else normal

/-- The priority of a name or a number written in decimal; anything else is the default. -/
def ofText (s : String) : Priority :=
  if s = "high" then high
  else if s = "low" then low
  else match s.toInt? with
    | some n => ofInt n
    | none => normal

end Priority

/-- One value per priority. -/
structure PerPriority (α : Type) where
  high : α
  normal : α
  low : α

namespace PerPriority

variable {α : Type}

/-- The same value at every priority. -/
def uniform (a : α) : PerPriority α := ⟨a, a, a⟩

/-- The value at a priority. -/
def get (t : PerPriority α) : Priority → α
  | .high => t.high
  | .normal => t.normal
  | .low => t.low

/-- Replaces the value at a priority. -/
def set (t : PerPriority α) (p : Priority) (a : α) : PerPriority α :=
  match p with
  | .high => { t with high := a }
  | .normal => { t with normal := a }
  | .low => { t with low := a }

/-- Changes the value at a priority. -/
def modify (t : PerPriority α) (p : Priority) (f : α → α) : PerPriority α := t.set p (f (t.get p))

@[simp] theorem get_set_self (t : PerPriority α) (p : Priority) (a : α) : (t.set p a).get p = a := by
  cases p <;> rfl

end PerPriority

end Courier.Dispatch
