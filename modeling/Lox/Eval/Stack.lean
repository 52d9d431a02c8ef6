/-!
# Deep recursion

Programs may nest far deeper than one machine stack allows. A computation can be given a stack of
its own, which changes nothing about its result.
-/

namespace Lox

/-- The value of `f ()`, computed on a stack of its own. -/
def onOwnStack {α : Type} (f : Unit → α) : α := (Task.spawn f .dedicated).get

/-- The number of nested levels that share one stack. -/
def levelsPerStack : Nat := 4096

/-- The value of `f ()`, computed at a level of nesting. -/
@[inline] def onLevelStack {α : Type} (level : Nat) (f : Unit → α) : α :=
  if level % levelsPerStack = 0 then onOwnStack f else f ()

@[simp] theorem onOwnStack_eq {α : Type} (f : Unit → α) : onOwnStack f = f () := rfl

@[simp] theorem onLevelStack_eq {α : Type} (level : Nat) (f : Unit → α) :
    onLevelStack level f = f () := by
  simp [onLevelStack]

end Lox
