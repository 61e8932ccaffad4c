import GreenTurtle.TimerRounds
import GreenTurtle.TimerRefinement
import Mathlib.Tactic

/-!
# When `Update` returns

The innermost loop of `Update` calls a timer until its deadline lies after the
clock.  `HandleTimeOut` adds the timer's interval to the deadline in 64 bits,
and nothing ensures that this ever gets there: an interval of zero stays where
it is, and a deadline near the end of the 64-bit range comes back at its
beginning.  A tick returns exactly if each timer in its slot gets past the
clock; the other two loops always end.  Callbacks do nothing here.
-/

namespace GreenTurtle.Timers

open FixedWidth
open Execution

variable {q : QueueId}

/-! ## The deadlines a timer goes through -/

/-- The deadline after so many calls of `HandleTimeOut`. -/
def Timer.timeAfter (timer : Timer) : ℕ → ℕ
  | 0 => timer.nextHandleTime
  | calls + 1 => toUInt64 (timer.timeAfter calls + timer.timerInterval)

def Timer.after (timer : Timer) (calls : ℕ) : Timer :=
  { timer with nextHandleTime := timer.timeAfter calls }

/-- Some number of calls brings the deadline past `now`. -/
def Timer.Passes (timer : Timer) (now : ℕ) : Prop :=
  ∃ calls, now < timer.timeAfter calls

theorem Timer.timeAfter_after (timer : Timer) (first second : ℕ) :
    (timer.after first).timeAfter second =
      timer.timeAfter (first + second) := by
  induction second with
  | zero => rfl
  | succ second ih =>
      simp only [Timer.timeAfter, ih]
      rfl

theorem Timer.timeAfter_congr
    {timer record : Timer}
    (hinterval : record.timerInterval = timer.timerInterval)
    (hnext : record.nextHandleTime = timer.nextHandleTime) (calls : ℕ) :
    record.timeAfter calls = timer.timeAfter calls := by
  induction calls with
  | zero => exact hnext
  | succ calls ih => simp only [Timer.timeAfter, ih, hinterval]

theorem Timer.Passes.congr
    {timer record : Timer} {now : ℕ} (hpasses : timer.Passes now)
    (hinterval : record.timerInterval = timer.timerInterval)
    (hnext : record.nextHandleTime = timer.nextHandleTime) :
    record.Passes now := by
  obtain ⟨calls, hlt⟩ := hpasses
  refine ⟨calls, ?_⟩
  rw [Timer.timeAfter_congr hinterval hnext]
  exact hlt

theorem Timer.Passes.mono
    {timer : Timer} {now earlier : ℕ} (hpasses : timer.Passes now)
    (hle : earlier ≤ now) : timer.Passes earlier := by
  obtain ⟨calls, hlt⟩ := hpasses
  exact ⟨calls, hle.trans_lt hlt⟩

theorem Timer.timeAfter_eq_mod
    {timer : Timer} (hnext : timer.nextHandleTime < 18446744073709551616)
    (calls : ℕ) :
    timer.timeAfter calls =
      (timer.nextHandleTime + calls * timer.timerInterval) %
        18446744073709551616 := by
  induction calls with
  | zero =>
      rw [Nat.zero_mul, Nat.add_zero, Nat.mod_eq_of_lt hnext]
      rfl
  | succ calls ih =>
      rw [Timer.timeAfter, ih, Nat.add_one_mul, ← Nat.add_assoc]
      generalize timer.nextHandleTime + calls * timer.timerInterval = sum
      unfold toUInt64
      omega

/-- An interval that is positive and does not reach from the clock over the end
of the 64-bit range brings every deadline past the clock. -/
theorem Timer.Passes.of_interval
    {timer : Timer} {now : ℕ}
    (hpos : 1 ≤ timer.timerInterval)
    (hfits : now + timer.timerInterval < 18446744073709551616) :
    timer.Passes now := by
  by_cases hnext : now < timer.nextHandleTime
  · exact ⟨0, hnext⟩
  · have hdiv :=
      Nat.div_add_mod (now - timer.nextHandleTime) timer.timerInterval
    have hmod :=
      Nat.mod_lt (now - timer.nextHandleTime) (by omega :
        timer.timerInterval > 0)
    refine ⟨(now - timer.nextHandleTime) / timer.timerInterval + 1, ?_⟩
    rw [Timer.timeAfter_eq_mod (by omega), Nat.add_one_mul, Nat.mul_comm,
      Nat.mod_eq_of_lt (by omega)]
    omega

/-- The first deadline past the clock is at or before each other one, so what
a timer passes it still passes after being called until then. -/
theorem Timer.Passes.first
    {timer : Timer} {now : ℕ} (hpasses : timer.Passes now) :
    ∃ calls, now < timer.timeAfter calls ∧
      (∀ earlier < calls, timer.timeAfter earlier ≤ now) ∧
      ∀ later, now ≤ later → timer.Passes later →
        (timer.after calls).Passes later := by
  classical
  refine ⟨Nat.find hpasses, Nat.find_spec hpasses, ?_, ?_⟩
  · intro earlier hearlier
    exact not_lt.mp (Nat.find_min hpasses hearlier)
  · rintro later hle ⟨calls, hlt⟩
    have hfirst : Nat.find hpasses ≤ calls :=
      Nat.find_min' hpasses (hle.trans_lt hlt)
    refine ⟨calls - Nat.find hpasses, ?_⟩
    rw [Timer.timeAfter_after, Nat.add_sub_cancel' hfirst]
    exact hlt

/-! ## The innermost loop -/

section InnermostLoop

variable {slot iter : ℕ} {t : TimerId} {exec : Exec} {timer : Timer}

theorem handleTimeOut_quiet_world
    (exec : Exec) (t : TimerId) (timer : Timer) :
    (exec.handleTimeOut quiet q t timer).world =
      exec.world.setTimer t (timer.after 1) := rfl

theorem timers_handleTimeOut_quiet
    (exec : Exec) (t : TimerId) (timer : Timer) :
    (exec.handleTimeOut quiet q t timer).world.timers t =
      some (timer.after 1) := by
  simp [handleTimeOut_quiet_world]

theorem fireWhileDue_returns
    {calls : ℕ} (htimer : exec.world.timers t = some timer)
    (hget : (exec.world.slotList q slot).get iter = .timer t)
    (hdue : ∀ earlier < calls,
      timer.timeAfter earlier ≤ (exec.world.clock q).lastUpdateTime)
    (hend : (exec.world.clock q).lastUpdateTime < timer.timeAfter calls) :
    ∃ next : Exec, next.world = exec.world.setTimer t (timer.after calls) ∧
      ∀ fuel, calls + 1 ≤ fuel →
        Exec.fireWhileDue quiet q slot iter fuel (.timer t) exec =
          .ok (.timer t, next) := by
  induction calls generalizing exec timer with
  | zero =>
      refine ⟨exec, (World.setTimer_self htimer).symm, ?_⟩
      intro fuel hfuel
      obtain ⟨fuel, rfl⟩ := Nat.exists_eq_add_one.mpr (by omega : 0 < fuel)
      have hlater :
          ¬ timer.nextHandleTime ≤ (exec.world.clock q).lastUpdateTime :=
        not_le.mpr hend
      simp only [Exec.fireWhileDue, htimer, if_neg hlater]
  | succ calls ih =>
      have hfirst :
          timer.nextHandleTime ≤ (exec.world.clock q).lastUpdateTime :=
        hdue 0 (by omega)
      have hclock := (visitInvariant_clock q _).handleTimeOut quiet htimer rfl
      obtain ⟨next, hnext, hresult⟩ :=
        ih (timers_handleTimeOut_quiet exec t timer) hget
          (by
            intro earlier hearlier
            rw [Timer.timeAfter_after, hclock]
            exact hdue (1 + earlier) (by omega))
          (by
            rw [Timer.timeAfter_after, hclock, Nat.add_comm]
            exact hend)
      refine ⟨next, ?_, ?_⟩
      · rw [hnext, handleTimeOut_quiet_world]
        simp only [World.setTimer, Function.update_idem]
        congr 3
        rw [Timer.after, Timer.timeAfter_after, Nat.add_comm]
        rfl
      · intro fuel hfuel
        obtain ⟨fuel, rfl⟩ := Nat.exists_eq_add_one.mpr (by omega : 0 < fuel)
        simp only [Exec.fireWhileDue, htimer, if_pos hfirst]
        -- The callback leaves the cell as it is.
        rw [show
          ((exec.handleTimeOut quiet q t timer).world.slotList q slot).get
            iter = .timer t from hget]
        exact hresult fuel (by omega)

theorem passes_of_fireWhileDue
    {fuel : ℕ} {result : TimerPtr × Exec}
    (htimer : exec.world.timers t = some timer)
    (hget : (exec.world.slotList q slot).get iter = .timer t)
    (hresult :
      Exec.fireWhileDue quiet q slot iter fuel (.timer t) exec =
        .ok result) :
    timer.Passes (exec.world.clock q).lastUpdateTime := by
  induction fuel generalizing exec timer with
  | zero => simp [Exec.fireWhileDue] at hresult
  | succ fuel ih =>
      simp only [Exec.fireWhileDue, htimer] at hresult
      split at hresult
      next =>
        rw [show
          ((exec.handleTimeOut quiet q t timer).world.slotList q slot).get
            iter = .timer t from hget] at hresult
        obtain ⟨calls, hlt⟩ :=
          ih (timers_handleTimeOut_quiet exec t timer) hget hresult
        rw [Timer.timeAfter_after] at hlt
        exact ⟨1 + calls, hlt⟩
      next hlater => exact ⟨0, not_le.mp hlater⟩

end InnermostLoop

/-! ## Visiting one cell -/

/-- Every deadline is a 64-bit number. -/
def World.InRange (world : World) : Prop :=
  ∀ t timer, world.timers t = some timer →
    timer.nextHandleTime < 18446744073709551616

/-- What a visit that returns does to the world. -/
structure VisitedCell
    (q : QueueId) (t : TimerId) (timer : Timer) (world result : World) :
    Prop where
  consistent : Consistent q result
  inRange : result.InRange
  clock : result.clock q = world.clock q
  length :
    (result.slotList q timer.iterSlot).list.length =
      (world.slotList q timer.iterSlot).list.length
  record :
    ∃ record, result.timers = Function.update world.timers t (some record) ∧
      ∀ now, (world.clock q).lastUpdateTime ≤ now → timer.Passes now →
        record.Passes now

theorem World.InRange.update
    {world result : World} (hrange : world.InRange) {t : TimerId}
    {record : Timer}
    (htimers :
      result.timers = Function.update world.timers t (some record))
    (hrecord : record.nextHandleTime < 18446744073709551616) :
    result.InRange := by
  intro other timer htimer
  rw [htimers] at htimer
  by_cases heq : other = t
  · subst other
    rw [Function.update_self, Option.some.injEq] at htimer
    rw [← htimer]
    exact hrecord
  · rw [Function.update_of_ne heq] at htimer
    exact hrange other timer htimer

theorem Timer.timeAfter_lt
    {timer : Timer} (hnext : timer.nextHandleTime < 18446744073709551616)
    (calls : ℕ) : timer.timeAfter calls < 18446744073709551616 := by
  rw [Timer.timeAfter_eq_mod hnext]
  exact Nat.mod_lt _ (by norm_num)

section VisitedCell

variable {slot iter : ℕ} {t : TimerId} {exec : Exec} {timer : Timer}

theorem visitCell_returns
    (hcons : Consistent q exec.world) (hrange : exec.world.InRange)
    (htimer : exec.world.timers t = some timer)
    (hqueue : timer.queue = some q)
    (hslot : timer.iterSlot = slot) (hpos : timer.iterPos = iter)
    (hpasses : timer.Passes (exec.world.clock q).lastUpdateTime) :
    ∃ result bound,
      VisitedCell q t timer exec.world result.world ∧
      ∀ fuel, bound ≤ fuel →
        Exec.visitCell quiet q slot fuel (.timer t) iter exec =
          .ok (true, result) := by
  obtain ⟨calls, hend, hdue, hlater⟩ := hpasses.first
  have hget := hcons.get_eq htimer hqueue hslot hpos
  obtain ⟨fired, hfired, hreturns⟩ :=
    fireWhileDue_returns htimer hget hdue hend
  have hadvanced : fired.world.timers t = some (timer.after calls) := by
    simp [hfired]
  have hclock : fired.world.clock q = exec.world.clock q := by
    rw [hfired]
    rfl
  have hfiredCons : Consistent q fired.world := by
    rw [hfired]
    exact hcons.setTimer htimer rfl rfl rfl
  have hnext := Timer.timeAfter_lt (hrange t timer htimer) calls
  have htimers :=
    Consistent.requeue_timers (q := q) hadvanced hnext rfl
  have hupdate :
      Function.update fired.world.timers t =
        Function.update exec.world.timers t := by
    rw [hfired]
    exact funext fun record => Function.update_idem ..
  rw [hupdate] at htimers
  refine ⟨fired.requeue q (.timer t), calls + 1, ?_, ?_⟩
  · simp only [Exec.requeue, hadvanced, Exec.world_emit]
    constructor
    · exact hfiredCons.scheduleTimer t _ _
    · exact hrange.update htimers hnext
    · exact (World.clock_scheduleTimer ..).trans hclock
    · refine (hfiredCons.scheduleTimer_length hadvanced hqueue _ _).trans ?_
      rw [hfired]
      rfl
    · refine ⟨_, htimers, ?_⟩
      intro now hle hnow
      exact (hlater now hle hnow).congr rfl rfl
  · intro fuel hfuel
    simp only [Exec.visitCell, hreturns fuel hfuel]

theorem passes_of_visitCell
    {fuel : ℕ} {result : Bool × Exec}
    (hcons : Consistent q exec.world)
    (htimer : exec.world.timers t = some timer)
    (hqueue : timer.queue = some q)
    (hslot : timer.iterSlot = slot) (hpos : timer.iterPos = iter)
    (hresult :
      Exec.visitCell quiet q slot fuel (.timer t) iter exec = .ok result) :
    timer.Passes (exec.world.clock q).lastUpdateTime := by
  simp only [Exec.visitCell] at hresult
  cases hfired :
      Exec.fireWhileDue quiet q slot iter fuel (.timer t) exec with
  | error stopped => simp [hfired] at hresult
  | ok left =>
      exact passes_of_fireWhileDue htimer
        (hcons.get_eq htimer hqueue hslot hpos) hfired

end VisitedCell

/-! ## Walking the current slot -/

/-- Every timer in the slot gets past `now`. -/
def World.SlotPasses
    (q : QueueId) (slot now : ℕ) (world : World) : Prop :=
  ∀ t timer, world.timers t = some timer → timer.queue = some q →
    timer.iterSlot = slot → timer.Passes now

/-- Every timer of the queue gets past `now`. -/
def World.AllPass (q : QueueId) (now : ℕ) (world : World) : Prop :=
  ∀ t timer, world.timers t = some timer → timer.queue = some q →
    timer.Passes now

/-- A walk through a slot whose timers all get past the clock. -/
structure Walking
    (q : QueueId) (slot : ℕ) (start : World) (exec : Exec) : Prop where
  consistent : Consistent q exec.world
  inRange : exec.world.InRange
  clock : exec.world.clock q = start.clock q
  length :
    (exec.world.slotList q slot).list.length =
      (start.slotList q slot).list.length
  slotPasses :
    exec.world.SlotPasses q slot (start.clock q).lastUpdateTime
  allPass :
    ∀ now, (start.clock q).lastUpdateTime ≤ now → start.AllPass q now →
      exec.world.AllPass q now

theorem Walking.visit
    {slot : ℕ} {start : World} {exec result : Exec}
    (hwalking : Walking q slot start exec)
    {t : TimerId} {timer : Timer}
    (htimer : exec.world.timers t = some timer)
    (hqueue : timer.queue = some q) (hslot : timer.iterSlot = slot)
    (hvisited : VisitedCell q t timer exec.world result.world) :
    Walking q slot start result := by
  obtain ⟨record, htimers, hrecord⟩ := hvisited.record
  have hclock := hwalking.clock
  -- A property of all timers that the visited one keeps is kept by all.
  have hkeep :
      ∀ (among : Timer → Prop) (now : ℕ),
        (start.clock q).lastUpdateTime ≤ now → timer.Passes now →
        (∀ s found, exec.world.timers s = some found →
          found.queue = some q → among found → found.Passes now) →
        ∀ s found, result.world.timers s = some found →
          found.queue = some q → among found → found.Passes now := by
    intro among now hle hpasses hbefore s found hfound hfoundQueue hamong
    rw [htimers] at hfound
    by_cases heq : s = t
    · subst s
      rw [Function.update_self, Option.some.injEq] at hfound
      subst found
      exact hrecord now (hclock ▸ hle) hpasses
    · rw [Function.update_of_ne heq] at hfound
      exact hbefore s found hfound hfoundQueue hamong
  constructor
  · exact hvisited.consistent
  · exact hvisited.inRange
  · exact hvisited.clock.trans hclock
  · have hlength := hvisited.length
    rw [hslot] at hlength
    exact hlength.trans hwalking.length
  · exact hkeep (·.iterSlot = slot) _ le_rfl
      (hwalking.slotPasses t timer htimer hqueue hslot) hwalking.slotPasses
  · intro now hle hstart
    have hall := hwalking.allPass now hle hstart
    intro s found hfound hfoundQueue
    exact hkeep (fun _ => True) now hle (hall t timer htimer hqueue)
      (fun s found hs hq _ => hall s found hs hq) s found hfound
      hfoundQueue trivial

theorem walk_returns
    {slot : ℕ} (start : Exec) (hcons : Consistent q start.world)
    (hrange : start.world.InRange)
    (hpasses :
      start.world.SlotPasses q slot
        (start.world.clock q).lastUpdateTime) :
    ∃ final fuel,
      Walking q slot start.world final ∧
        UnorderedList.forEach
          (fun state : Exec => state.world.slotList q slot)
          (Exec.visitCell quiet q slot fuel) fuel 0 start = .ok final := by
  have hstart : Walking q slot start.world start :=
    ⟨hcons, hrange, rfl, rfl, hpasses, fun _ _ hall => hall⟩
  have hwalk :=
    UnorderedList.forEach_total
      (fun (_ : ℕ) (exec : Exec)
        (hwalking : Walking q slot start.world exec) => hwalking.length)
      (fun _ _ hwalking _ => hwalking)
      (fun iter exec ptr hwalking hcell hlive => by
        rw [hwalking.consistent.marker] at hlive
        obtain ⟨t, timer, rfl, htimer, hqueue, hslot, hpos⟩ :=
          hwalking.consistent.backpointer slot iter ptr hcell hlive
        have htime :=
          hwalking.slotPasses t timer htimer hqueue hslot
        rw [← hwalking.clock] at htime
        obtain ⟨result, bound, hvisited, hreturns⟩ :=
          visitCell_returns hwalking.consistent hwalking.inRange htimer
            hqueue hslot hpos htime
        exact ⟨result, bound,
          hwalking.visit htimer hqueue hslot hvisited, hreturns⟩)
      (Nat.zero_le _) hstart
  obtain ⟨final, bound, hfinal, hreturns⟩ := hwalk
  exact ⟨final, bound, hfinal, hreturns bound bound le_rfl le_rfl⟩

/-- The walk has come to the cell `iter`: it found the timers of the cells
behind it able to pass the clock, and has not touched those ahead. -/
structure WalkedTo
    (q : QueueId) (slot : ℕ) (start : World) (iter : ℕ) (exec : Exec) :
    Prop where
  consistent : Consistent q exec.world
  inRange : exec.world.InRange
  clock : exec.world.clock q = start.clock q
  ahead :
    ∀ t timer, start.timers t = some timer → timer.queue = some q →
      timer.iterSlot = slot → iter ≤ timer.iterPos →
        exec.world.timers t = some timer
  behind :
    ∀ t timer, start.timers t = some timer → timer.queue = some q →
      timer.iterSlot = slot → timer.iterPos < iter →
        timer.Passes (start.clock q).lastUpdateTime

theorem WalkedTo.skip
    {slot iter : ℕ} {start : World} {exec : Exec}
    (hwalked : WalkedTo q slot start iter exec)
    (hcell : (exec.world.slotList q slot).list[iter]? = some .deleted) :
    WalkedTo q slot start (iter + 1) exec := by
  constructor
  · exact hwalked.consistent
  · exact hwalked.inRange
  · exact hwalked.clock
  · intro t timer htimer hqueue hslot hle
    exact hwalked.ahead t timer htimer hqueue hslot (by omega)
  · intro t timer htimer hqueue hslot hlt
    apply hwalked.behind t timer htimer hqueue hslot
    by_contra hnot
    have hpos : timer.iterPos = iter := by omega
    have hfound :=
      hwalked.consistent.cell
        (hwalked.ahead t timer htimer hqueue hslot hpos.ge) hqueue
    rw [hslot, hpos, hcell] at hfound
    simp at hfound

theorem WalkedTo.visit
    {slot iter : ℕ} {start : World} {exec result : Exec}
    (hwalked : WalkedTo q slot start iter exec)
    {t : TimerId} {timer : Timer}
    (htimer : exec.world.timers t = some timer)
    (hqueue : timer.queue = some q) (hslot : timer.iterSlot = slot)
    (hpos : timer.iterPos = iter)
    (hpasses : timer.Passes (exec.world.clock q).lastUpdateTime)
    (hvisited : VisitedCell q t timer exec.world result.world) :
    WalkedTo q slot start (iter + 1) result := by
  obtain ⟨record, htimers, _⟩ := hvisited.record
  constructor
  · exact hvisited.consistent
  · exact hvisited.inRange
  · exact hvisited.clock.trans hwalked.clock
  · intro s found hfound hfoundQueue hfoundSlot hle
    have hstill :=
      hwalked.ahead s found hfound hfoundQueue hfoundSlot (by omega)
    have hne : s ≠ t := by
      rintro rfl
      have hsame : found = timer :=
        Option.some.inj (hstill.symm.trans htimer)
      subst found
      omega
    rw [htimers, Function.update_of_ne hne]
    exact hstill
  · intro s found hfound hfoundQueue hfoundSlot hlt
    by_cases hbefore : found.iterPos < iter
    · exact hwalked.behind s found hfound hfoundQueue hfoundSlot hbefore
    · -- Two timers in one cell are the same timer.
      have hfoundPos : found.iterPos = iter := by omega
      have hstill :=
        hwalked.ahead s found hfound hfoundQueue hfoundSlot hfoundPos.ge
      have hcell := hwalked.consistent.cell hstill hfoundQueue
      rw [hfoundSlot, hfoundPos, ← hslot, ← hpos,
        hwalked.consistent.cell htimer hqueue, Option.some.injEq,
        TimerPtr.timer.injEq] at hcell
      subst s
      have hsame : found = timer :=
        Option.some.inj (hstill.symm.trans htimer)
      rw [hsame, ← hwalked.clock]
      exact hpasses

theorem slotPasses_of_walk
    {slot fuel : ℕ} (start : Exec) {final : Exec}
    (hcons : Consistent q start.world) (hrange : start.world.InRange)
    (hresult :
      UnorderedList.forEach
          (fun state : Exec => state.world.slotList q slot)
          (Exec.visitCell quiet q slot fuel) fuel 0 start = .ok final) :
    start.world.SlotPasses q slot
      (start.world.clock q).lastUpdateTime := by
  have hstart : WalkedTo q slot start.world 0 start := by
    constructor
    · exact hcons
    · exact hrange
    · rfl
    · intro t timer htimer _ _ _
      exact htimer
    · intro t timer _ _ _ hlt
      exact absurd hlt (Nat.not_lt_zero _)
  have hwalk :=
    UnorderedList.forEach_returned
      (fun iter exec (hwalked : WalkedTo q slot start.world iter exec)
          hcell =>
        hwalked.skip (hcell.trans (by rw [hwalked.consistent.marker])))
      (fun iter exec ptr continues next hwalked hcell hlive hvisit => by
        rw [hwalked.consistent.marker] at hlive
        obtain ⟨t, timer, rfl, htimer, hqueue, hslot, hpos⟩ :=
          hwalked.consistent.backpointer slot iter ptr hcell hlive
        have hpasses :=
          passes_of_visitCell hwalked.consistent htimer hqueue hslot hpos
            hvisit
        obtain ⟨result, bound, hvisited, hreturns⟩ :=
          visitCell_returns hwalked.consistent hwalked.inRange htimer
            hqueue hslot hpos hpasses
        have hsame :=
          (visitCell_mono (le_max_left fuel bound) hvisit).symm.trans
            (hreturns _ (le_max_right fuel bound))
        simp only [Except.ok.injEq, Prod.mk.injEq] at hsame
        obtain ⟨rfl, rfl⟩ := hsame
        exact ⟨rfl,
          hwalked.visit htimer hqueue hslot hpos hpasses hvisited⟩)
      hstart hresult
  obtain ⟨last, hlast, hlength⟩ := hwalk
  intro t timer htimer hqueue hslot
  apply hlast.behind t timer htimer hqueue hslot
  by_contra hnot
  have hfound :=
    hlast.consistent.cell
      (hlast.ahead t timer htimer hqueue hslot (by omega)) hqueue
  rw [hslot] at hfound
  have hbound := (List.getElem?_eq_some_iff.mp hfound).1
  omega

/-! ## One tick -/

/-- What a tick asks of the timers in its slot. -/
def World.TickPasses (q : QueueId) (world : World) : Prop :=
  world.SlotPasses q (world.clock q).currentSlot
    (world.clock q).advance.lastUpdateTime

theorem tick_returns
    {exec : Exec} (hcons : Consistent q exec.world)
    (hrange : exec.world.InRange) (hpasses : exec.world.TickPasses q) :
    ∃ next fuel, exec.tick quiet q fuel = .ok next ∧
      ∀ now, (exec.world.clock q).advance.lastUpdateTime ≤ now →
        exec.world.AllPass q now → next.world.AllPass q now := by
  obtain ⟨next, fuel, hwalking, hresult⟩ :=
    walk_returns (exec.tickStarted q) (hcons.of_clock rfl) hrange (by
      rw [Exec.clock_tickStarted]
      exact hpasses)
  refine ⟨next, fuel, hresult, ?_⟩
  intro now hle hall
  apply hwalking.allPass now _ hall
  rw [Exec.clock_tickStarted]
  exact hle

theorem tickPasses_of_tick
    {fuel : ℕ} {exec next : Exec} (hcons : Consistent q exec.world)
    (hrange : exec.world.InRange)
    (htick : exec.tick quiet q fuel = .ok next) :
    exec.world.TickPasses q := by
  have hpasses :=
    slotPasses_of_walk (exec.tickStarted q) (hcons.of_clock rfl) hrange
      htick
  rw [Exec.clock_tickStarted] at hpasses
  exact hpasses

/-! ## All rounds -/

/-- A round of `Update` begins in this execution. -/
inductive RoundBegins
    (onTimeOut : Callback) (q : QueueId) (bound : ℕ) (exec : Exec) :
    Exec → Prop where
  | first (hlate : (exec.world.clock q).lastUpdateTime < bound) :
      RoundBegins onTimeOut q bound exec exec
  | next {fuel : ℕ} {middle after : Exec}
      (hbegins : RoundBegins onTimeOut q bound exec middle)
      (htick : middle.tick onTimeOut q fuel = .ok after)
      (hlate : (after.world.clock q).lastUpdateTime < bound) :
      RoundBegins onTimeOut q bound exec after

theorem RoundBegins.late
    {onTimeOut : Callback} {bound : ℕ} {exec middle : Exec}
    (hbegins : RoundBegins onTimeOut q bound exec middle) :
    (middle.world.clock q).lastUpdateTime < bound := by
  cases hbegins with
  | first hlate => exact hlate
  | next _ _ hlate => exact hlate

theorem RoundBegins.of_tick
    {onTimeOut : Callback} {bound fuel : ℕ} {exec next middle : Exec}
    (hlate : (exec.world.clock q).lastUpdateTime < bound)
    (htick : exec.tick onTimeOut q fuel = .ok next)
    (hbegins : RoundBegins onTimeOut q bound next middle) :
    RoundBegins onTimeOut q bound exec middle := by
  induction hbegins with
  | first hnext => exact .next (.first hlate) htick hnext
  | next _ hrest hafter ih => exact .next ih hrest hafter

theorem tick_unique
    {onTimeOut : Callback} {fuel more : ℕ} {exec first second : Exec}
    (hfirst : exec.tick onTimeOut q fuel = .ok first)
    (hsecond : exec.tick onTimeOut q more = .ok second) :
    first = second := by
  have hsame :=
    (tick_mono (le_max_left fuel more) hfirst).symm.trans
      (tick_mono (le_max_right fuel more) hsecond)
  exact Except.ok.inj hsame

/-- A loop that returns has a way to go on from each round it begins. -/
theorem Rounds.of_begins
    {onTimeOut : Callback} {bound : ℕ} {exec middle final : Exec}
    (hrounds : Rounds onTimeOut q bound exec final)
    (hbegins : RoundBegins onTimeOut q bound exec middle) :
    Rounds onTimeOut q bound middle final := by
  induction hbegins with
  | first => exact hrounds
  | next hbefore htick _ ih =>
      cases ih with
      | stop hdone => exact absurd hbefore.late (not_lt.mpr hdone)
      | tick _ hother hrest =>
          rw [tick_unique htick hother]
          exact hrest

/-! ## Executions that the program can reach -/

namespace World.InRange

variable {world : World}

theorem setTimer
    (hrange : world.InRange) (t : TimerId) {record : Timer}
    (hrecord : record.nextHandleTime < 18446744073709551616) :
    (world.setTimer t record).InRange :=
  hrange.update rfl hrecord

theorem cancelTimer
    (hrange : world.InRange) (self : QueueId) (ptr : TimerPtr) :
    (world.cancelTimer self ptr).InRange := by
  cases ptr with
  | null => exact hrange
  | deleted => exact hrange
  | timer t =>
      simp only [World.cancelTimer]
      split
      next => exact hrange
      next timer htimer =>
        split
        next => exact hrange
        next =>
          split
          next => exact hrange.update rfl (hrange t timer htimer)
          next => exact hrange

theorem scheduleTimer
    (hrange : world.InRange) (q : QueueId) (t : TimerId)
    (timerInterval : ℕ) (timeDelay : ℤ) :
    (world.scheduleTimer q t timerInterval timeDelay).InRange := by
  cases htimer : world.timers t with
  | none =>
      simp only [World.scheduleTimer, htimer]
      exact hrange
  | some timer =>
      exact hrange.update (Consistent.scheduleTimer_timers htimer _ _)
        (toUInt64_lt _)

theorem destroyTimer
    (hrange : world.InRange) (t : TimerId) :
    (world.destroyTimer t).InRange := by
  unfold World.destroyTimer
  split
  next => exact hrange
  next timer _ =>
    intro other record hrecord
    by_cases heq : other = t
    · subst other
      simp at hrecord
    · dsimp only at hrecord
      rw [Function.update_of_ne heq] at hrecord
      cases hqueue : timer.queue with
      | none =>
          rw [hqueue] at hrecord
          exact hrange other record hrecord
      | some owner =>
          rw [hqueue] at hrecord
          exact hrange.cancelTimer owner (.timer t) other record hrecord

end World.InRange

theorem stepInvariant_inRange (q : QueueId) :
    StepInvariant q (fun exec => exec.world.InRange) := by
  refine ⟨⟨?_, ?_, ?_, ?_⟩, ?_, ?_⟩
  · intro exec op hrange
    unfold Exec.perform
    split
    next =>
      cases op with
      | create t => exact hrange.setTimer t (by decide)
      | schedule t timerInterval timeDelay =>
          exact hrange.scheduleTimer q t timerInterval timeDelay
      | cancel ptr => exact hrange.cancelTimer q ptr
      | destroy t => exact hrange.destroyTimer t
    next => exact hrange
  · intro exec t timer hrange _
    have hnext :=
      toUInt64_lt (timer.nextHandleTime + timer.timerInterval)
    exact hrange.setTimer t hnext
  · intro exec ptr hrange
    apply Exec.requeue_cases
      (motive := fun state => state.world.InRange) hrange
    intro t timer _ _
    exact hrange.scheduleTimer q t _ _
  · intro exec slot iter hrange _
    exact hrange
  · intro exec hrange
    exact hrange
  · intro exec currentTime hrange
    apply Exec.startClock_cases
      (motive := fun state => state.world.InRange) hrange
    intro _
    exact hrange

theorem stepInvariant_interval (q : QueueId) (interval : ℕ) :
    StepInvariant q
      (fun exec => (exec.world.clock q).interval = interval) :=
  stepInvariant_clock q (·.interval = interval) (fun _ hclock => hclock)
    (fun _ _ hclock => hclock)

/-- What holds of every execution that the program can reach. -/
structure Reached (q : QueueId) (interval : ℕ) (exec : Exec) : Prop where
  sound : Sound q exec
  inRange : exec.world.InRange
  interval : (exec.world.clock q).interval = interval

theorem Reached.tick
    {onTimeOut : Callback} {fuel interval : ℕ} {exec next : Exec}
    (hreached : Reached q interval exec)
    (htick : exec.tick onTimeOut q fuel = .ok next) :
    Reached q interval next := by
  have hsound := hreached.sound.tick onTimeOut fuel
  have hrange :=
    (stepInvariant_inRange q).tick onTimeOut fuel hreached.inRange
  have hinterval :=
    (stepInvariant_interval q interval).tick onTimeOut fuel hreached.interval
  rw [htick] at hsound hrange hinterval
  exact ⟨hsound, hrange, hinterval⟩

theorem Reached.begins
    {onTimeOut : Callback} {bound interval : ℕ} {exec middle : Exec}
    (hreached : Reached q interval exec)
    (hbegins : RoundBegins onTimeOut q bound exec middle) :
    Reached q interval middle := by
  induction hbegins with
  | first => exact hreached
  | next _ htick _ ih => exact ih.tick htick

theorem Reached.advance_lastUpdateTime
    {bound interval : ℕ} {exec : Exec}
    (hreached : Reached q interval exec)
    (hlate : (exec.world.clock q).lastUpdateTime < bound)
    (hfits : bound + interval ≤ 18446744073709551616) :
    (exec.world.clock q).advance.lastUpdateTime =
      (exec.world.clock q).lastUpdateTime + interval := by
  rw [WheelClock.advance]
  dsimp only
  rw [hreached.interval, toUInt64_natCast_add (by omega)]

theorem rounds_return_iff
    {bound interval : ℕ} {exec : Exec}
    (hreached : Reached q interval exec) (hpos : 0 < interval)
    (hfits : bound + interval ≤ 18446744073709551616) :
    (∃ final, Rounds quiet q bound exec final) ↔
      ∀ middle, RoundBegins quiet q bound exec middle →
        middle.world.TickPasses q := by
  constructor
  · rintro ⟨final, hrounds⟩ middle hbegins
    have hmiddle := hreached.begins hbegins
    cases hrounds.of_begins hbegins with
    | stop hdone => exact absurd hbegins.late (not_lt.mpr hdone)
    | tick _ htick _ =>
        exact tickPasses_of_tick hmiddle.sound.consistent hmiddle.inRange
          htick
  · intro hpasses
    -- The clock comes nearer to the bound with every round.
    induction hleft : bound - (exec.world.clock q).lastUpdateTime
      using Nat.strong_induction_on generalizing exec with
    | _ left ih =>
        by_cases hlate : (exec.world.clock q).lastUpdateTime < bound
        · obtain ⟨next, fuel, htick, _⟩ :=
            tick_returns hreached.sound.consistent hreached.inRange
              (hpasses exec (.first hlate))
          have htime :
              (next.world.clock q).lastUpdateTime =
                (exec.world.clock q).lastUpdateTime + interval := by
            rw [clock_tick htick]
            exact hreached.advance_lastUpdateTime hlate hfits
          obtain ⟨final, hrest⟩ :=
            ih _ (by omega) (hreached.tick htick)
              (fun middle hbegins =>
                hpasses middle (.of_tick hlate htick hbegins)) rfl
          exact ⟨final, .tick hlate htick hrest⟩
        · exact ⟨exec, .stop (not_lt.mp hlate)⟩

/-! ## A condition on the state in which `Update` is called -/

/-- The time at which a loop that makes rounds up to `bound` stops the
clock. -/
def WheelClock.stopTime (clock : WheelClock) (bound : ℕ) : ℕ :=
  clock.lastUpdateTime +
    (bound - clock.lastUpdateTime + (clock.interval - 1)) /
      clock.interval * clock.interval

theorem WheelClock.stopTime_of_lt
    {clock after : WheelClock} {bound : ℕ}
    (hlate : clock.lastUpdateTime < bound) (hpos : 0 < clock.interval)
    (hinterval : after.interval = clock.interval)
    (htime :
      after.lastUpdateTime = clock.lastUpdateTime + clock.interval) :
    after.stopTime bound = clock.stopTime bound := by
  unfold WheelClock.stopTime
  rw [hinterval, htime]
  by_cases hnear : bound ≤ clock.lastUpdateTime + clock.interval
  · have hone :
        (bound - clock.lastUpdateTime + (clock.interval - 1)) /
          clock.interval = 1 := by
      apply Nat.div_eq_of_lt_le <;> omega
    rw [hone, Nat.div_eq_of_lt (by omega)]
    omega
  · have hmore :
        bound - clock.lastUpdateTime + (clock.interval - 1) =
          bound - (clock.lastUpdateTime + clock.interval) +
            (clock.interval - 1) + clock.interval := by
      omega
    rw [hmore, Nat.add_div_right _ hpos, Nat.succ_mul]
    omega

theorem Reached.stopTime_advance
    {bound interval : ℕ} {exec : Exec}
    (hreached : Reached q interval exec) (hpos : 0 < interval)
    (hlate : (exec.world.clock q).lastUpdateTime < bound)
    (hfits : bound + interval ≤ 18446744073709551616) :
    (exec.world.clock q).advance.stopTime bound =
      (exec.world.clock q).stopTime bound := by
  have hclock : 0 < (exec.world.clock q).interval := by
    rw [hreached.interval]
    exact hpos
  refine WheelClock.stopTime_of_lt hlate hclock rfl ?_
  rw [hreached.interval]
  exact hreached.advance_lastUpdateTime hlate hfits

/-- While rounds begin, the time at which the clock will stop stays the same,
and all timers can still get past it. -/
theorem RoundBegins.allPass
    {bound interval : ℕ} {exec middle : Exec}
    (hbegins : RoundBegins quiet q bound exec middle)
    (hreached : Reached q interval exec) (hpos : 0 < interval)
    (hfits : bound + interval ≤ 18446744073709551616)
    (hall :
      exec.world.AllPass q ((exec.world.clock q).stopTime bound)) :
    middle.world.AllPass q ((middle.world.clock q).stopTime bound) ∧
      middle.world.TickPasses q := by
  -- A round needs less than what all rounds together need.
  have hround :
      ∀ state : Exec, Reached q interval state →
        (state.world.clock q).lastUpdateTime < bound →
        state.world.AllPass q ((state.world.clock q).stopTime bound) →
          (state.world.clock q).advance.lastUpdateTime ≤
              (state.world.clock q).stopTime bound ∧
            state.world.TickPasses q := by
    intro state hstate hlate hpasses
    have hle :
        (state.world.clock q).advance.lastUpdateTime ≤
          (state.world.clock q).stopTime bound := by
      rw [← hstate.stopTime_advance hpos hlate hfits]
      exact Nat.le_add_right _ _
    refine ⟨hle, ?_⟩
    intro t timer htimer hqueue _
    exact (hpasses t timer htimer hqueue).mono hle
  induction hbegins with
  | first hlate => exact ⟨hall, (hround exec hreached hlate hall).2⟩
  | @next fuel before after hbefore htick hlate ih =>
      have hstate := hreached.begins hbefore
      obtain ⟨hle, hpasses⟩ :=
        hround before hstate hbefore.late ih.1
      obtain ⟨other, _, hother, hkeep⟩ :=
        tick_returns hstate.sound.consistent hstate.inRange hpasses
      have hsame := tick_unique hother htick
      subst other
      have hafter :
          after.world.AllPass q
            ((after.world.clock q).stopTime bound) := by
        rw [clock_tick htick,
          hstate.stopTime_advance hpos hbefore.late hfits]
        exact hkeep _ hle ih.1
      exact ⟨hafter, (hround after (hstate.tick htick) hlate hafter).2⟩

/-! ## Whole histories -/

theorem exponentLoop_zero (fuel : ℕ) : exponentLoop fuel 0 = none := by
  induction fuel with
  | zero => rfl
  | succ fuel ih => simp [exponentLoop, ih]

/-- The parts of a queue that its constructor returns. -/
theorem TimerQueue.new_eq_some
    {slotSize interval : ℕ} {queue : TimerQueue}
    (hnew : TimerQueue.new slotSize interval = some queue) :
    queue.slotSize = slotSize ∧ queue.interval = interval ∧
      queue.lastUpdateTime = 0 ∧ 0 < interval ∧
      ∀ slot, queue.queues slot = UnorderedList.new.setDeleted .deleted := by
  have hpos : 0 < interval := by
    apply Nat.pos_of_ne_zero
    rintro rfl
    simp [TimerQueue.new, exponentLoop_zero] at hnew
  simp only [TimerQueue.new, Option.map_eq_some_iff] at hnew
  obtain ⟨exponent, _, rfl⟩ := hnew
  exact ⟨rfl, rfl, rfl, hpos, fun _ => rfl⟩

theorem Reached.of_runCalls
    {slotSize interval : ℕ} {queue : TimerQueue}
    (hnew : TimerQueue.new slotSize interval = some queue)
    (hpos : 0 < slotSize) (hsize : slotSize < 18446744073709551616)
    {onTimeOut : Callback} {fuel : ℕ} {calls : List TimerCall}
    {exec : Exec}
    (hrun :
      Exec.runCalls onTimeOut q fuel calls
        (Exec.start (World.initial queue)) = .ok exec) :
    Reached q interval exec := by
  obtain ⟨hslots, hinterval, _, _, hlists⟩ :=
    TimerQueue.new_eq_some hnew
  have hcons : Consistent q (World.initial queue) := by
    apply Consistent.of_fresh
    · change 0 < queue.slotSize
      rw [hslots]
      exact hpos
    · change queue.slotSize ≤ _
      rw [hslots]
      exact hsize.le
    · intro t timer htimer
      simp [World.initial] at htimer
    · exact hlists
  have hempty : (Exec.start (World.initial queue)).world.InRange := by
    intro t timer htimer
    simp [Exec.start, World.initial] at htimer
  have hclock :
      ((Exec.start (World.initial queue)).world.clock q).interval =
        interval :=
    hinterval
  have hsound := (Sound.start hcons).runCalls onTimeOut fuel calls
  have hrange :=
    (stepInvariant_inRange q).runCalls onTimeOut fuel calls hempty
  have hkept :=
    (stepInvariant_interval q interval).runCalls onTimeOut fuel calls hclock
  rw [hrun] at hsound hrange hkept
  exact ⟨hsound, hrange, hkept⟩

/-- In every state of a running queue, whatever intervals and delays its timers
were scheduled with and whatever callbacks it has seen, a call of `Update`
whose callbacks do nothing returns exactly if each of its rounds finds the
timers in its slot able to get past the clock.  It returns in particular if
every timer of the queue can get past the time at which the clock will
stop. -/
theorem update_returns_iff_rounds_pass
    {slotSize interval : ℕ} {queue : TimerQueue}
    (hnew : TimerQueue.new slotSize interval = some queue)
    (hpos : 0 < slotSize) (hsize : slotSize < 18446744073709551616)
    {q : QueueId} {onTimeOut : Callback} {fuel : ℕ}
    {calls : List TimerCall} {exec : Exec}
    (hrun :
      Exec.runCalls onTimeOut q fuel calls
        (Exec.start (World.initial queue)) = .ok exec)
    (hstarted : (exec.world.clock q).lastUpdateTime ≠ 0)
    {currentTime : ℕ}
    (hfits : currentTime + 2 * interval < 18446744073709551616) :
    ((∃ final fuel, exec.update quiet q fuel currentTime = .ok final) ↔
      ∀ middle,
        RoundBegins quiet q (currentTime + interval) exec middle →
          middle.world.TickPasses q) ∧
    (exec.world.AllPass q
        ((exec.world.clock q).stopTime (currentTime + interval)) →
      ∃ final fuel, exec.update quiet q fuel currentTime = .ok final) := by
  have hreached := Reached.of_runCalls hnew hpos hsize hrun
  obtain ⟨_, _, _, hinterval, _⟩ := TimerQueue.new_eq_some hnew
  have hbound :
      currentTime + interval + interval ≤ 18446744073709551616 := by
    omega
  have hiff :
      (∃ final fuel, exec.update quiet q fuel currentTime = .ok final) ↔
        ∀ middle,
          RoundBegins quiet q (currentTime + interval) exec middle →
            middle.world.TickPasses q := by
    rw [← rounds_return_iff hreached hinterval hbound]
    apply exists_congr
    intro final
    rw [update_returns_iff_rounds hstarted
      (by rw [hreached.interval]; omega), hreached.interval]
  refine ⟨hiff, ?_⟩
  intro hall
  rw [hiff]
  intro middle hbegins
  exact (hbegins.allPass hreached hinterval hbound hall).2

/-- A timer with an interval of three gets past every time this call can
reach. -/
theorem update_returns_iff_rounds_pass_three :
    ∃ queue, TimerQueue.new 2 1 = some queue ∧
      ∃ exec,
        Exec.runCalls quiet 0 20
            [.op (.create 7), .update 5, .op (.schedule 7 3 0)]
            (Exec.start (World.initial queue)) = .ok exec ∧
          (exec.world.clock 0).lastUpdateTime ≠ 0 ∧
          exec.world.AllPass 0 ((exec.world.clock 0).stopTime 21) ∧
          ∃ final fuel, exec.update quiet 0 fuel 20 = .ok final := by
  refine ⟨_, rfl, _, rfl, by decide, ?_⟩
  have hreturns :=
    @update_returns_iff_rounds_pass 2 1 _ rfl (by decide) (by decide) 0
      quiet 20 [.op (.create 7), .update 5, .op (.schedule 7 3 0)] _ rfl
      (by decide) 20 (by decide)
  refine (fun hall => ⟨hall, hreturns.2 hall⟩) ?_
  intro t timer htimer _
  by_cases heq : t = 7
  · subst t
    cases htimer
    exact Timer.Passes.of_interval (by decide) (by decide)
  · -- The record was written twice, by the constructor and by the call.
    change Function.update _ 7 _ t = _ at htimer
    rw [Function.update_of_ne heq] at htimer
    change Function.update _ 7 _ t = _ at htimer
    rw [Function.update_of_ne heq] at htimer
    cases htimer

/-- A timer with an interval of zero is called again and again: the call of
`Update` that finds it due does not return. -/
theorem update_never_returns_zero_interval :
    ∃ queue, TimerQueue.new 2 1 = some queue ∧
      ∃ exec,
        Exec.runCalls quiet 0 20
            [.op (.create 7), .update 5, .op (.schedule 7 0 0)]
            (Exec.start (World.initial queue)) = .ok exec ∧
          (exec.world.clock 0).lastUpdateTime ≠ 0 ∧
          ∀ fuel final, exec.update quiet 0 fuel 6 ≠ .ok final := by
  refine ⟨_, rfl, _, rfl, by decide, ?_⟩
  intro fuel final hresult
  have hreached :=
    @Reached.of_runCalls 0 2 1 _ rfl (by decide) (by decide) quiet 20
      [.op (.create 7), .update 5, .op (.schedule 7 0 0)] _ rfl
  have hrounds :=
    (update_returns_iff_rounds (by decide) (by decide)).mp ⟨fuel, hresult⟩
  have hpasses :=
    (rounds_return_iff hreached (by decide) (by decide)).mp
      ⟨final, hrounds⟩ _ (.first (by decide))
  obtain ⟨calls, hlt⟩ := hpasses 7 _ rfl rfl rfl
  rw [Timer.timeAfter_eq_mod (by decide)] at hlt
  change 7 < (6 + calls * 0) % 18446744073709551616 at hlt
  omega

end GreenTurtle.Timers
