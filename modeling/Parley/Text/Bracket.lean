import Parley.Text.Basic

/-!
# Bracketed groups

The operands of a statement, and the statements embedded in free chat, stand in parentheses. A text
is split into the interiors of its outermost groups: whatever stands between two groups is passed
over, and so are a closing bracket that closes nothing and a group that is never closed.
-/

namespace Parley.Text

/-- The groups that close in a text, when `depth` brackets are open before it and `seen` holds the
interior of the outermost one so far, last character first. -/
def groupsFrom : (depth : Nat) → (seen : Text) → Text → List Text
  | _, _, [] => []
  -- outside of all brackets, nothing but an opening one counts
  | 0, _, c :: t => if c = '(' then groupsFrom 1 [] t else groupsFrom 0 [] t
  | depth + 1, seen, c :: t =>
    if c = '(' then groupsFrom (depth + 2) (c :: seen) t
    else if c = ')' then
      match depth with
      -- this bracket closes the outermost group
      | 0 => seen.reverse :: groupsFrom 0 [] t
      | inner + 1 => groupsFrom (inner + 1) (c :: seen) t
    else groupsFrom (depth + 1) (c :: seen) t

/-- The interiors of the outermost bracketed groups of a text, in order. -/
def groups (t : Text) : List Text :=
  groupsFrom 0 [] t

end Parley.Text
