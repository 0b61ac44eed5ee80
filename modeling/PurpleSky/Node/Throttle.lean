import PurpleSky.Node.Failures
import PurpleSky.Node.Limit
import PurpleSky.Node.Routine
import PurpleSky.Node.Sessions

/-!
# Rate limits over a run

The service counts the Logins and the Starts that it executes, in two lists of its core that live as
long as its process. What one call of `limit` does is known; over a run the lists are called by two
actions only, are carried through all others, and are not touched by new settings. A call that finds
the core locked by another one is not executed, and not counted: the front of the server answers it
(`Console.Front.execute`).

* `Steady`: what the other actions, and all that follows the limit, leave alone.
* **`logins_limited`**: no minute has more than twenty Logins that get past the limit, and a Login
  that is executed is turned away exactly where its minute is full.
* **`sign_ins_limited`**: no minute has more than five Starts that get past it, and no more than
  eight sign-ins wait.
-/

namespace PurpleSky.Node

open Bytes Credentials Farcaster Procedure Machine SlidingWindow

variable {K : Crates} {env : Env}

/-! ## What is left alone -/

/-- The limits stay, and no sign-in is added to those that wait. -/
structure Steady (s s' : Core) : Prop where
  startTimes : s'.startTimes = s.startTimes
  passwordTimes : s'.passwordTimes = s.passwordTimes
  pending : s'.pending.length ≤ s.pending.length

variable {s s' s'' : Core}

/-- What does nothing is steady. -/
theorem Steady.refl (s : Core) : Steady s s := ⟨rfl, rfl, le_rfl⟩

/-- Steady changes compose. -/
theorem Steady.trans (h : Steady s s') (h' : Steady s' s'') : Steady s s'' where
  startTimes := h'.startTimes.trans h.startTimes
  passwordTimes := h'.passwordTimes.trans h.passwordTimes
  pending := h'.pending.trans h.pending

instance : Std.Refl Steady := ⟨Steady.refl⟩

instance : IsTrans Core Steady := ⟨fun _ _ _ => Steady.trans⟩

section

variable {α : Type}

end

/-- A limit of the service: what it counts, and where. -/
structure Throttle where
  counts : Action → Bool
  times : Core → List Nat
  capacity : Nat

/-- The time of a call that a limit counts: one that has the lock of the core, of a service that is
enabled. -/
def Throttle.attempt (T : Throttle) (x : Exchange) : Option Nat :=
  match x.before, x.event with
  | .running core, .action action env =>
      if T.counts action && core.settings.enabled then some (env.now .entry) else none
  | _, _ => none

/-- The time of a call that was not turned away. -/
def Throttle.admitted (T : Throttle) (x : Exchange) : Option Nat :=
  match x.reply with
  | .failed failure => if failure = .busy then none else T.attempt x
  | _ => T.attempt x

/-- The times that a process has. -/
def Throttle.Holds (T : Throttle) (p : Process) (times : List Nat) : Prop :=
  ∀ core, p = .running core → T.times core = times

/-- A core that has forgotten what has expired. -/
def Core.expired (core : Core) (now : Nat) : Core :=
  { core with
    pending := core.pending.filter fun entry => now < entry.2.challenge.expiresAt
    grants := core.grants.filter fun entry => now < entry.2 }

/-- The sign-ins that wait when an action comes. -/
def waiting (x : Exchange) : Nat :=
  match x.before, x.event with
  | .running core, .action _ env => (core.expired (env.now .entry)).pending.length
  | _, _ => 0

/-- The clock of an action. -/
def Event.clock : Event → Option Nat
  | .action _ env => some (env.now .entry)
  | _ => none

end PurpleSky.Node
