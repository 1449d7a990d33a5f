import Parley.Text.Decimal

/-!
# Agents

A player is known by an index. Two indices have a meaning of their own: 0 stands for nobody, and so
for a speaker that is left open, and 255 stands for anybody.

A player is written `Agent[NN]`, with at least two digits; a statement writes anybody as `ANY`, but
the token `Agent[255]` is read as anybody too.
-/

namespace Parley

/-- A player, by index. -/
structure Agent where
  index : UInt32
deriving DecidableEq, Repr, Inhabited

namespace Agent

/-- Nobody: the speaker of a statement that names none. -/
def unspec : Agent := ⟨0⟩

/-- Anybody. -/
def any : Agent := ⟨255⟩

/-- This agent, unless it is left open: then the other one. -/
def orElse (a other : Agent) : Agent :=
  if a = unspec then other else a

/-- The agent of an index, if it is a possible one. -/
def ofInt? (n : Int) : Option Agent :=
  (uint32? n).map Agent.mk

/-- The token `Agent[NN]`. -/
def token (a : Agent) : Text :=
  let digits := Text.ofNat a.index.toNat
  "Agent[".toList ++ (if a.index < 10 then '0' :: digits else digits) ++ [']']

/-- Reads `ANY` or `Agent[NN]`, with any number of digits whose value is a possible index. -/
def read : Reader Agent := fun t =>
  match Text.after "ANY".toList t with
  | some rest => some (any, rest)
  | none => do
    let (n, rest) ← Text.natural (← Text.after "Agent[".toList t)
    let agent ← ofInt? n
    let rest ← Text.after "]".toList rest
    return (agent, rest)

/-- The agent that a text names when blanks around it are dropped; any other text names nobody. -/
def ofText (t : Text) : Agent :=
  match read t.trim with
  | some (agent, []) => agent
  | _ => unspec

end Agent

end Parley
