import Lighting.Command

/-!
# Ramp plans

A ramp is run by the bus units where they can, and otherwise by a row of levels sent one after the
other.  `plan` decides; `steps` spaces the levels evenly over the ramp's duration, leaves out a step
that would not change the level, and always ends with the target at the very end of the ramp.
-/

namespace Lighting.Ramp

/-- The number of steps of a ramp that nothing else was said about. -/
def defaultStepCount : Nat := 10

/-- The largest number of steps of a ramp. -/
def maxStepCount : Nat := 255

/-- The number of steps that is taken when `n` are asked for. -/
def stepCount (n : Nat) : Nat := min (max n 1) maxStepCount

/-- One level of a stepped ramp. -/
structure Step where
  /-- When the level is sent, counted from the start of the ramp. -/
  offset : Duration
  /-- The level. -/
  level : Level
deriving DecidableEq

/-- How an action is carried out. -/
inductive Plan where
  /-- Sent as it is, or as a level if it was a ramp that takes no time. -/
  | immediate (action : Action)
  /-- A ramp that the bus units run. -/
  | native (action : Action)
  /-- A ramp of levels sent one after the other. -/
  | stepped (steps : List Step)
deriving DecidableEq

/-- Whether levels are sent one after the other. -/
def Plan.isStepped : Plan → Bool
  | .stepped _ => true
  | _ => false

/-- The action that sets a level at once. -/
def directAction (level : Level) : Action :=
  if level = .full then .on else if level = .off then .off else .setLevel level

/-- The steps before the last one of a ramp of `n` steps, from the step numbered `k` on, `count` of
them: those that change the level.  `previous` is the level before. -/
def intermediate (start target : Level) (duration : Duration) (n : Nat) :
    (count k : Nat) → (previous : Level) → List Step
  | 0, _, _ => []
  | count + 1, k, previous =>
    let level := start.interpolate target k n
    if level = previous then intermediate start target duration n count (k + 1) previous
    else
      ⟨(duration.part n).times k, level⟩ ::
        intermediate start target duration n count (k + 1) level

/-- Drops a last step that is already at the target. -/
def dropAtTarget (target : Level) (steps : List Step) : List Step :=
  if steps.getLast?.any (·.level = target) then steps.dropLast else steps

/-- The steps of a ramp of `n` steps between two levels. -/
def steps (n : Nat) (start target : Level) (duration : Duration) : List Step :=
  dropAtTarget target (intermediate start target duration n (n - 1) 1 start) ++ [⟨duration, target⟩]

/-- A ramp ends with its target, at its very end. -/
theorem getLast?_steps (n : Nat) (start target : Level) (duration : Duration) :
    (steps n start target duration).getLast? = some ⟨duration, target⟩ := by
  simp [steps]

theorem one_le_stepCount (n : Nat) : 1 ≤ stepCount n := by
  unfold stepCount maxStepCount; omega

/-- How an action is carried out from a level, with `n` steps if it has to be stepped. -/
def plan (n : Nat) (action : Action) (current : Level) (native : Bool) : Plan :=
  match action with
  | .ramp level duration =>
    if duration.isZero then .immediate (directAction level)
    else if native then .native action
    else .stepped (steps (stepCount n) current level duration)
  | _ => .immediate action

end Lighting.Ramp
