import GreenTurtle.TimerReentrancy
import Mathlib.Tactic

/-!
# The rounds of `Update`

What a loop of `Update` returns does not depend on how much fuel it was given
beyond what it needs.  The outer loop is therefore a relation between
executions, without fuel: rounds are made until the clock has come to a bound.
A loop to a later bound passes through the place where a loop to an earlier
bound stops, whatever the callbacks do.
-/

namespace GreenTurtle.Timers

open FixedWidth
open Execution

variable {q : QueueId} {onTimeOut : Callback}

/-! ## More fuel -/

theorem fireWhileDue_mono
    {slot iter fuel more : ℕ} {ptr : TimerPtr} {exec : Exec}
    {result : TimerPtr × Exec} (hmore : fuel ≤ more)
    (hresult :
      Exec.fireWhileDue onTimeOut q slot iter fuel ptr exec = .ok result) :
    Exec.fireWhileDue onTimeOut q slot iter more ptr exec = .ok result := by
  induction fuel generalizing more ptr exec with
  | zero => simp [Exec.fireWhileDue] at hresult
  | succ fuel ih =>
      obtain ⟨more, rfl⟩ := Nat.exists_eq_add_one.mpr (by omega : 0 < more)
      cases ptr with
      | null => exact hresult
      | deleted => exact hresult
      | timer t =>
          simp only [Exec.fireWhileDue] at hresult ⊢
          cases htimer : exec.world.timers t with
          | none =>
              rw [htimer] at hresult
              exact hresult
          | some timer =>
              simp only [htimer] at hresult ⊢
              split
              next hdue =>
                rw [if_pos hdue] at hresult
                exact ih (by omega) hresult
              next hlater =>
                rw [if_neg hlater] at hresult
                exact hresult

/-- The walk is never stopped by a visit. -/
theorem visitCell_continues
    {slot fuel iter : ℕ} {ptr : TimerPtr} {exec next : Exec}
    {continues : Bool}
    (hresult :
      Exec.visitCell onTimeOut q slot fuel ptr iter exec =
        .ok (continues, next)) :
    continues = true := by
  by_cases hptr : ptr = .null
  · subst ptr
    simp only [Exec.visitCell, Except.ok.injEq, Prod.mk.injEq] at hresult
    exact hresult.1.symm
  · rw [visitCell_of_ne_null hptr] at hresult
    split at hresult
    next => simp at hresult
    next =>
      simp only [Except.ok.injEq, Prod.mk.injEq] at hresult
      exact hresult.1.symm

theorem visitCell_mono
    {slot fuel more iter : ℕ} {ptr : TimerPtr} {exec : Exec}
    {result : Bool × Exec} (hmore : fuel ≤ more)
    (hresult :
      Exec.visitCell onTimeOut q slot fuel ptr iter exec = .ok result) :
    Exec.visitCell onTimeOut q slot more ptr iter exec = .ok result := by
  by_cases hptr : ptr = .null
  · subst ptr
    exact hresult
  · rw [visitCell_of_ne_null hptr] at hresult ⊢
    cases hfired :
        Exec.fireWhileDue onTimeOut q slot iter fuel ptr exec with
    | error stopped => simp [hfired] at hresult
    | ok left =>
        rw [hfired] at hresult
        rw [fireWhileDue_mono hmore hfired]
        exact hresult

theorem tick_mono
    {fuel more : ℕ} {exec next : Exec} (hmore : fuel ≤ more)
    (hresult : exec.tick onTimeOut q fuel = .ok next) :
    exec.tick onTimeOut q more = .ok next :=
  UnorderedList.forEach_mono
    (fun _ _ _ _ hcell => visitCell_mono hmore hcell) hmore hresult

theorem updateLoop_mono
    {deltaTime fuel more : ℕ} {exec final : Exec} (hmore : fuel ≤ more)
    (hresult :
      Exec.updateLoop onTimeOut q deltaTime fuel exec = .ok final) :
    Exec.updateLoop onTimeOut q deltaTime more exec = .ok final := by
  induction fuel generalizing more exec with
  | zero => simp [Exec.updateLoop] at hresult
  | succ fuel ih =>
      obtain ⟨more, rfl⟩ := Nat.exists_eq_add_one.mpr (by omega : 0 < more)
      simp only [Exec.updateLoop] at hresult ⊢
      split
      next hlate =>
        rw [if_pos hlate] at hresult
        cases htick : exec.tick onTimeOut q fuel with
        | error stopped => simp [htick] at hresult
        | ok next =>
            rw [htick] at hresult
            rw [tick_mono (by omega) htick]
            exact ih (by omega) hresult
      next hdone =>
        rw [if_neg hdone] at hresult
        exact hresult

/-! ## Only a tick moves the clock -/

@[simp] theorem clock_perform
    (q : QueueId) (exec : Exec) (op : TimerOp) :
    (exec.perform q op).world.clock q = exec.world.clock q := by
  unfold Exec.perform
  split
  next =>
    cases op with
    | create t => rfl
    | schedule t timerInterval timeDelay =>
        exact World.clock_scheduleTimer ..
    | cancel ptr => exact World.clock_cancelTimer ..
    | destroy t =>
        change (exec.world.destroyTimer t).clock q = _
        unfold World.destroyTimer
        split
        next => rfl
        next timer _ =>
          cases timer.queue with
          | none => rfl
          | some owner =>
              exact World.clock_cancelTimer exec.world owner q (.timer t)
  next => rfl

@[simp] theorem clock_requeue (exec : Exec) (ptr : TimerPtr) :
    (exec.requeue q ptr).world.clock q = exec.world.clock q := by
  apply Exec.requeue_cases
    (motive := fun state => state.world.clock q = exec.world.clock q) rfl
  intro t timer _ _
  exact World.clock_scheduleTimer ..

theorem visitInvariant_clock (q : QueueId) (clock : WheelClock) :
    VisitInvariant q (fun exec => exec.world.clock q = clock) := by
  constructor
  · intro exec op hclock
    exact (clock_perform q exec op).trans hclock
  · intro exec t timer hclock _
    exact hclock
  · intro exec ptr hclock
    exact (clock_requeue exec ptr).trans hclock
  · intro exec slot iter hclock _
    exact (World.clock_setList ..).trans hclock

theorem clock_tick
    {fuel : ℕ} {exec next : Exec}
    (htick : exec.tick onTimeOut q fuel = .ok next) :
    next.world.clock q = (exec.world.clock q).advance := by
  have hwalk :
      (outcome (exec.tick onTimeOut q fuel)).world.clock q =
        (exec.world.clock q).advance := by
    unfold Exec.tick
    refine UnorderedList.forEach_preserves
      (fun state : Exec =>
        state.world.clock q = (exec.world.clock q).advance) ?_ fuel 0 ?_
    · intro ptr iter state hstate hcell _
      exact (visitInvariant_clock q _).visitCell onTimeOut _ fuel iter
        hstate hcell
    · exact World.clock_setClock ..
  rw [htick] at hwalk
  exact hwalk

/-- What holds of the clock at the beginning and is kept by its two movements
always holds of it. -/
theorem stepInvariant_clock
    (q : QueueId) (inv : WheelClock → Prop)
    (hadvance : ∀ clock, inv clock → inv clock.advance)
    (hstart : ∀ (clock : WheelClock) (currentTime : ℕ), inv clock →
      inv { clock with lastUpdateTime := currentTime }) :
    StepInvariant q (fun exec => inv (exec.world.clock q)) := by
  refine ⟨⟨?_, ?_, ?_, ?_⟩, ?_, ?_⟩
  · intro exec op hclock
    rw [clock_perform]
    exact hclock
  · intro exec t timer hclock _
    exact hclock
  · intro exec ptr hclock
    rw [clock_requeue]
    exact hclock
  · intro exec slot iter hclock _
    dsimp only
    rw [World.clock_setList]
    exact hclock
  · intro exec hclock
    change inv ((exec.world.setClock q _).clock q)
    rw [World.clock_setClock]
    exact hadvance _ hclock
  · intro exec currentTime hclock
    apply Exec.startClock_cases
      (motive := fun state => inv (state.world.clock q)) hclock
    intro _
    rw [World.clock_setClock]
    exact hstart _ currentTime hclock

/-! ## Rounds without fuel -/

/-- The outer loop of `Update` makes rounds until the clock has come to
`bound`. -/
inductive Rounds (onTimeOut : Callback) (q : QueueId) (bound : ℕ) :
    Exec → Exec → Prop where
  | stop {exec : Exec}
      (hdone : bound ≤ (exec.world.clock q).lastUpdateTime) :
      Rounds onTimeOut q bound exec exec
  | tick {fuel : ℕ} {exec next final : Exec}
      (hlate : (exec.world.clock q).lastUpdateTime < bound)
      (htick : exec.tick onTimeOut q fuel = .ok next)
      (hrest : Rounds onTimeOut q bound next final) :
      Rounds onTimeOut q bound exec final

theorem updateLoop_returns_iff
    {bound : ℕ} {exec final : Exec} :
    (∃ fuel, Exec.updateLoop onTimeOut q bound fuel exec = .ok final) ↔
      Rounds onTimeOut q bound exec final := by
  constructor
  · rintro ⟨fuel, hresult⟩
    induction fuel generalizing exec with
    | zero => simp [Exec.updateLoop] at hresult
    | succ fuel ih =>
        simp only [Exec.updateLoop] at hresult
        split at hresult
        next hlate =>
          cases htick : exec.tick onTimeOut q fuel with
          | error stopped => simp [htick] at hresult
          | ok next =>
              rw [htick] at hresult
              exact .tick hlate htick (ih hresult)
        next hdone =>
          simp only [Except.ok.injEq] at hresult
          subst final
          exact .stop (not_lt.mp hdone)
  · intro hrounds
    induction hrounds with
    | stop hdone =>
        refine ⟨1, ?_⟩
        simp only [Exec.updateLoop, if_neg (not_lt.mpr hdone)]
    | @tick fuel exec next final hlate htick _ ih =>
        obtain ⟨rest, hrest⟩ := ih
        refine ⟨max fuel rest + 1, ?_⟩
        simp only [Exec.updateLoop, if_pos hlate,
          tick_mono (le_max_left fuel rest) htick]
        exact updateLoop_mono (le_max_right fuel rest) hrest

namespace Rounds

variable {bound earlier later : ℕ} {exec middle final : Exec}

theorem bound_le
    (hrounds : Rounds onTimeOut q bound exec final) :
    bound ≤ (final.world.clock q).lastUpdateTime := by
  induction hrounds with
  | stop hdone => exact hdone
  | tick _ _ _ ih => exact ih

theorem interval_eq
    (hrounds : Rounds onTimeOut q bound exec final) :
    (final.world.clock q).interval = (exec.world.clock q).interval := by
  induction hrounds with
  | stop => rfl
  | tick _ htick _ ih =>
      rw [ih, clock_tick htick]
      rfl

/-- The rounds to a later bound begin with those to an earlier one. -/
theorem trans_iff
    (hle : earlier ≤ later) :
    Rounds onTimeOut q later exec final ↔
      ∃ middle, Rounds onTimeOut q earlier exec middle ∧
        Rounds onTimeOut q later middle final := by
  constructor
  · intro hrounds
    induction hrounds with
    | @stop exec hdone =>
        exact ⟨exec, .stop (hle.trans hdone), .stop hdone⟩
    | @tick fuel exec next final hlate htick hrest ih =>
        by_cases hearly :
            (exec.world.clock q).lastUpdateTime < earlier
        · obtain ⟨middle, hfirst, hsecond⟩ := ih
          exact ⟨middle, .tick hearly htick hfirst, hsecond⟩
        · exact ⟨exec, .stop (not_lt.mp hearly),
            .tick hlate htick hrest⟩
  · rintro ⟨middle, hfirst, hsecond⟩
    induction hfirst with
    | stop => exact hsecond
    | tick hlate htick _ ih =>
        exact .tick (hlate.trans_le hle) htick (ih hsecond)

/-- Nothing is left to do up to a bound that the clock has passed. -/
theorem eq_of_le
    (hdone : bound ≤ (exec.world.clock q).lastUpdateTime)
    (hrounds : Rounds onTimeOut q bound exec final) :
    final = exec := by
  cases hrounds with
  | stop => rfl
  | tick hlate => exact absurd hlate (not_lt.mpr hdone)

/-- Two loops in a row are one loop to the later of their bounds. -/
theorem max_iff
    (first second : ℕ) :
    (∃ middle, Rounds onTimeOut q first exec middle ∧
        Rounds onTimeOut q second middle final) ↔
      Rounds onTimeOut q (max first second) exec final := by
  rcases le_total first second with hle | hle
  · rw [max_eq_right hle]
    exact (trans_iff hle).symm
  · rw [max_eq_left hle]
    constructor
    · rintro ⟨middle, hfirst, hsecond⟩
      rw [eq_of_le (hle.trans hfirst.bound_le) hsecond]
      exact hfirst
    · intro hrounds
      exact ⟨final, hrounds, .stop (hle.trans hrounds.bound_le)⟩

end Rounds

/-! ## Calls of `Update` on a running clock -/

theorem startClock_of_ne_zero
    {exec : Exec} (hstarted : (exec.world.clock q).lastUpdateTime ≠ 0)
    (currentTime : ℕ) :
    exec.startClock q currentTime = exec := by
  simp only [Exec.startClock, if_neg hstarted]

theorem interval_startClock (exec : Exec) (currentTime : ℕ) :
    ((exec.startClock q currentTime).world.clock q).interval =
      (exec.world.clock q).interval := by
  apply Exec.startClock_cases
    (motive := fun state =>
      (state.world.clock q).interval = (exec.world.clock q).interval) rfl
  intro _
  rw [World.clock_setClock]

theorem update_returns_iff
    {exec final : Exec} {currentTime : ℕ} :
    (∃ fuel, exec.update onTimeOut q fuel currentTime = .ok final) ↔
      Rounds onTimeOut q
        (toUInt64 (currentTime + (exec.world.clock q).interval))
        (exec.startClock q currentTime) final := by
  simp only [Exec.update, interval_startClock]
  exact updateLoop_returns_iff

theorem update_returns_iff_rounds
    {exec final : Exec} {currentTime : ℕ}
    (hstarted : (exec.world.clock q).lastUpdateTime ≠ 0)
    (hfits :
      currentTime + (exec.world.clock q).interval < 18446744073709551616) :
    (∃ fuel, exec.update onTimeOut q fuel currentTime = .ok final) ↔
      Rounds onTimeOut q (currentTime + (exec.world.clock q).interval)
        exec final := by
  rw [update_returns_iff, startClock_of_ne_zero hstarted,
    toUInt64_natCast_add hfits]

/-- A clock that runs is not found at zero by a later call. -/
theorem Rounds.ne_zero
    {exec final : Exec} {currentTime : ℕ}
    (hstarted : (exec.world.clock q).lastUpdateTime ≠ 0)
    (hfits :
      currentTime + (exec.world.clock q).interval < 18446744073709551616)
    (hrounds :
      Rounds onTimeOut q (currentTime + (exec.world.clock q).interval)
        exec final) :
    (final.world.clock q).lastUpdateTime ≠ 0 := by
  have hle := hrounds.bound_le
  generalize hbound :
    currentTime + (exec.world.clock q).interval = bound at *
  by_cases hzero : (exec.world.clock q).interval = 0
  · -- A clock without an interval stands still.
    clear hbound
    induction hrounds with
    | stop => exact hstarted
    | @tick fuel exec next final hlate htick _ ih =>
        have hclock := clock_tick htick
        have hsame :
            (next.world.clock q).lastUpdateTime =
              (exec.world.clock q).lastUpdateTime := by
          rw [hclock, WheelClock.advance]
          dsimp only
          rw [toUInt64_natCast_add (by omega), hzero, Nat.add_zero]
        exact ih (hsame ▸ hstarted) hle (by rw [hclock]; exact hzero)
  · omega

theorem runCalls_update_iff
    {fuel currentTime : ℕ} {calls : List TimerCall} {exec final : Exec} :
    Exec.runCalls onTimeOut q fuel (.update currentTime :: calls) exec =
        .ok final ↔
      ∃ next, exec.update onTimeOut q fuel currentTime = .ok next ∧
        Exec.runCalls onTimeOut q fuel calls next = .ok final := by
  simp only [Exec.runCalls]
  cases exec.update onTimeOut q fuel currentTime with
  | error stopped => simp
  | ok next => simp

theorem runCalls_mono
    {fuel more : ℕ} {calls : List TimerCall} {exec final : Exec}
    (hmore : fuel ≤ more)
    (hresult : Exec.runCalls onTimeOut q fuel calls exec = .ok final) :
    Exec.runCalls onTimeOut q more calls exec = .ok final := by
  induction calls generalizing exec with
  | nil => exact hresult
  | cons call calls ih =>
      cases call with
      | op op => exact ih hresult
      | update currentTime =>
          obtain ⟨next, hupdate, hrest⟩ := runCalls_update_iff.mp hresult
          exact runCalls_update_iff.mpr
            ⟨next, updateLoop_mono hmore hupdate, ih hrest⟩

theorem runCalls_update_returns_iff
    {currentTime : ℕ} {calls : List TimerCall} {exec final : Exec} :
    (∃ fuel,
        Exec.runCalls onTimeOut q fuel (.update currentTime :: calls) exec =
          .ok final) ↔
      ∃ middle,
        (∃ fuel, exec.update onTimeOut q fuel currentTime = .ok middle) ∧
          ∃ fuel,
            Exec.runCalls onTimeOut q fuel calls middle = .ok final := by
  constructor
  · rintro ⟨fuel, hresult⟩
    obtain ⟨middle, hupdate, hrest⟩ := runCalls_update_iff.mp hresult
    exact ⟨middle, ⟨fuel, hupdate⟩, fuel, hrest⟩
  · rintro ⟨middle, ⟨first, hupdate⟩, second, hrest⟩
    refine ⟨max first second, runCalls_update_iff.mpr ⟨middle, ?_, ?_⟩⟩
    · exact updateLoop_mono (le_max_left first second) hupdate
    · exact runCalls_mono (le_max_right first second) hrest

theorem updates_return_iff_rounds
    {exec final : Exec} {first : ℕ} {times : List ℕ}
    (hstarted : (exec.world.clock q).lastUpdateTime ≠ 0)
    (hfits : ∀ time ∈ first :: times,
      time + (exec.world.clock q).interval < 18446744073709551616) :
    (∃ fuel,
        Exec.runCalls onTimeOut q fuel ((first :: times).map .update)
          exec = .ok final) ↔
      Rounds onTimeOut q
        ((first :: times).foldr max 0 + (exec.world.clock q).interval)
        exec final := by
  have hfirst := hfits first List.mem_cons_self
  induction times generalizing exec first with
  | nil =>
      simp only [List.map_cons, List.map_nil, runCalls_update_returns_iff,
        update_returns_iff_rounds hstarted hfirst]
      simp [Exec.runCalls]
  | cons second times ih =>
      rw [List.map_cons, runCalls_update_returns_iff, List.foldr_cons,
        ← Nat.add_max_add_right, ← Rounds.max_iff]
      apply exists_congr
      intro middle
      rw [update_returns_iff_rounds hstarted hfirst]
      apply and_congr_right
      intro hrounds
      have hinterval := hrounds.interval_eq
      rw [← hinterval]
      apply ih (hrounds.ne_zero hstarted hfirst)
      · intro time htime
        rw [hinterval]
        exact hfits time (List.mem_cons_of_mem _ htime)
      · rw [hinterval]
        exact hfits second (by simp)

/-- A sequence of calls of `Update` does what the one call with the furthest
of their times does, callbacks included: it returns if and only if that call
returns, and leaves the same execution behind. -/
theorem updates_eq_update_furthest
    (onTimeOut : Callback) {q : QueueId} {exec : Exec}
    (hstarted : (exec.world.clock q).lastUpdateTime ≠ 0)
    {times : List ℕ} (hne : times ≠ [])
    (hfits : ∀ time ∈ times,
      time + (exec.world.clock q).interval < 18446744073709551616)
    (final : Exec) :
    (∃ fuel,
        Exec.runCalls onTimeOut q fuel (times.map .update) exec =
          .ok final) ↔
      ∃ fuel,
        exec.update onTimeOut q fuel (times.foldr max 0) = .ok final := by
  have hfurthest : times.foldr max 0 ∈ times :=
    List.maximum_mem (List.foldr_max_of_ne_nil hne).symm
  rw [update_returns_iff_rounds hstarted (hfits _ hfurthest)]
  cases times with
  | nil => exact absurd rfl hne
  | cons first times => exact updates_return_iff_rounds hstarted hfits

/-- The clock jumps, stands still and steps back, while a firing timer cancels
itself and puts another timer into its cell. -/
theorem updates_eq_update_furthest_out_of_order :
    ∃ queue, TimerQueue.new 2 1 = some queue ∧
      ∃ exec,
        Exec.runCalls (fun _ t _ => [.cancel (.timer t), .schedule 8 3 0]) 0
            20
            [.op (.create 7), .op (.create 8), .update 5,
              .op (.schedule 7 1 0)]
            (Exec.start (World.initial queue)) = .ok exec ∧
          (exec.world.clock 0).lastUpdateTime ≠ 0 ∧
          (∀ time ∈ [6, 11, 11, 7],
            time + (exec.world.clock 0).interval < 18446744073709551616) ∧
          ∃ final,
            Exec.runCalls
                (fun _ t _ => [.cancel (.timer t), .schedule 8 3 0]) 0 20
                [.update 6, .update 11, .update 11, .update 7] exec =
              .ok final ∧
            .fired 12 8 11 ∈ final.events ∧
            ∃ fuel,
              exec.update
                  (fun _ t _ => [.cancel (.timer t), .schedule 8 3 0]) 0
                  fuel 11 = .ok final := by
  have hne : [6, 11, 11, 7] ≠ [] := by decide
  refine ⟨_, rfl, _, rfl, ?_⟩
  refine ⟨by decide, by decide, _, rfl, by decide, ?_⟩
  exact (updates_eq_update_furthest _ (by decide) hne (by decide) _).mp
    ⟨20, rfl⟩

end GreenTurtle.Timers
