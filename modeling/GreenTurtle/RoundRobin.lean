import GreenTurtle.Execution
import Mathlib.Data.Int.CardIntervalMod
import Mathlib.Data.List.ReduceOption
import Mathlib.Tactic

/-!
# Handing out in turn

A dispatcher hands items to a fixed number of servers, one after the other and
then from the first one again.  It is a machine whose state is the number of
items that it has handed out; a label names the server that gets an item, or
says that nothing is handed out.
-/

namespace GreenTurtle.RoundRobin

open Execution

def dispatch (servers handed : ℕ) : Option ℕ → Option ℕ
  | none => some handed
  | some server =>
      if server = handed % servers then some (handed + 1) else none

/-- The servers of a run are those whose turn it was. -/
theorem run_dispatch
    {servers handed last : ℕ} {labels : List (Option ℕ)}
    (hrun : run (dispatch servers) handed labels = some last) :
    labels.reduceOption =
      (List.range' handed labels.reduceOption.length).map (· % servers) := by
  induction labels generalizing handed with
  | nil => rfl
  | cons label labels ih =>
      obtain ⟨next, hnext, hrest⟩ := (run_cons_eq_some_iff _).mp hrun
      cases label with
      | none =>
          obtain rfl := Option.some.inj hnext
          rw [List.reduceOption_cons_of_none]
          exact ih hrest
      | some server =>
          simp only [dispatch] at hnext
          split at hnext
          next hturn =>
            obtain rfl := Option.some.inj hnext
            rw [List.reduceOption_cons_of_some, List.length_cons,
              List.range'_succ, List.map_cons, ← hturn, ← ih hrest]
          next => cases hnext

/-- How often it is a server's turn. -/
theorem count_turns
    {servers server : ℕ} (hserver : server < servers) (handed : ℕ) :
    ((List.range handed).map (· % servers)).count server =
      handed / servers + if server < handed % servers then 1 else 0 := by
  have hcount :
      ((List.range handed).map (· % servers)).count server =
        Nat.count (· ≡ server [MOD servers]) handed := by
    induction handed with
    | zero => rfl
    | succ handed ih =>
        rw [List.range_succ, List.map_append, List.count_append, ih,
          Nat.count_succ]
        simp [Nat.ModEq, Nat.mod_eq_of_lt hserver, List.count_singleton,
          beq_iff_eq]
  rw [hcount, Nat.count_modEq_card _ (by omega),
    Nat.mod_eq_of_lt hserver]

end GreenTurtle.RoundRobin
