import Mustache.Program
import Mustache.Value

/-!
# Contexts

A name is resolved in a context: the values of the sections around it, the
innermost one first, and the view at the end.

Main results:

- Theorem `Context.find_push`: a member of the innermost value hides all others
  of its name.
-/

namespace Mustache

/-- The innermost value and the values around it, nearest first. -/
structure Context where
  current : Value
  outer : List Value

namespace Context

/-- The context of a view. -/
def ofView (view : Value) : Context :=
  ⟨view, []⟩

/-- The context inside a section that is rendered for a value. -/
def push (ctx : Context) (v : Value) : Context :=
  ⟨v, ctx.current :: ctx.outer⟩

/-- The values of the context, the innermost one first. -/
def values (ctx : Context) : List Value :=
  ctx.current :: ctx.outer

/-- The member of the innermost value that has one of the given name. -/
def find (ctx : Context) (segment : String) : Option Value :=
  ctx.values.findSome? fun v => v.lookup segment

/-- A member of the innermost value hides those of the same name around it. -/
theorem find_push (ctx : Context) (v : Value) (segment : String) :
    (ctx.push v).find segment = (v.lookup segment).or (ctx.find segment) := by
  simp only [find, values, push, List.findSome?_cons]
  cases v.lookup segment <;> rfl

/-- The value of a path: its first segment is found in the context, each later one in the value
before it.  The empty path stands for the innermost value. -/
def resolvePath (ctx : Context) : List String → Option Value
  | [] => some ctx.current
  | first :: rest => (ctx.find first).bind fun v => rest.foldlM Value.lookup v

/-- The value that a name stands for. -/
def resolve (ctx : Context) (target : Reference) : Option Value :=
  ctx.resolvePath target.segments

end Context

end Mustache
