import Mathlib.Data.List.Rotate
import Pintos.Threads.Proofs.LoadAvg

/-!
# Bounds on processor time

With at most `n` threads `load_avg` is at most `n`, so a second takes at least one part in `2n + 1`
of `recent_cpu` away, and the 100 ticks and the `nice` value of a second add at most 120. So
`recent_cpu` stays between `-20 (2n + 1)` and `120 (2n + 1)`. Up to 64 threads no operation of the
scheduler overflows, and up to 4 threads a hundred times `recent_cpu` fits into 32 bits. With more
threads it need not: threads of `nice` 20 that never block raise the load average, so that
`recent_cpu` decays more and more slowly while each second adds 20 to it.
-/

namespace Pintos

open Function List Option

/-! ## Arithmetic -/

theorem tdiv_fptF (x : Int) : x.tdiv fptF = if 0 ≤ x then x / fptF else -(-x / fptF) := by
  by_cases nonneg : 0 ≤ x
  · rw [if_pos nonneg, Int.tdiv_eq_ediv_of_nonneg nonneg]
  · rw [if_neg nonneg, ← Int.neg_neg x, Int.neg_tdiv, Int.tdiv_eq_ediv_of_nonneg (by omega),
      Int.neg_neg]

/-- What is left of `recent_cpu` after a second, in units of `2 ^ -14`. -/
def decay (loadAvg : Int) : Int := loadAvg * 2 * fptF / (loadAvg * 2 + fptF)

/-- The result of `thread_calc_recent_cpu`. -/
def recentCpuAfter (loadAvg recentCpu nice : Int) : Int :=
  (decay loadAvg * recentCpu).tdiv fptF + nice * fptF

variable {fit : Int → Option Int} {loadAvg recentCpu nice : Int} {n : Nat}

theorem decay_bounds (low : 0 ≤ loadAvg) (high : loadAvg ≤ n * fptF) :
    0 ≤ decay loadAvg ∧ decay loadAvg * (2 * n + 1) ≤ 2 * n * fptF := by
  have pos : 0 < loadAvg * 2 + fptF := by
    unfold fptF
    omega
  have floor := Int.ediv_mul_le (loadAvg * 2 * fptF) pos.ne'
  have nonneg : 0 ≤ decay loadAvg := Int.ediv_nonneg (by unfold fptF; omega) pos.le
  have le : decay loadAvg ≤ fptF := Int.ediv_le_of_le_mul pos (by unfold fptF; omega)
  have scaled := Int.mul_le_mul_of_nonneg_right high (Int.sub_nonneg.mpr le)
  unfold decay at *
  generalize loadAvg * 2 * fptF / (loadAvg * 2 + fptF) = d at *
  unfold fptF at *
  exact ⟨nonneg, by nlinarith⟩

theorem recentCpuAfter_bounds (low : 0 ≤ loadAvg) (high : loadAvg ≤ n * fptF)
    (least : -(20 * (2 * n + 1)) * fptF ≤ recentCpu) (most : recentCpu ≤ 120 * (2 * n + 1) * fptF)
    (nices : -20 ≤ nice ∧ nice ≤ 20) :
    -(20 * (2 * n + 1)) * fptF ≤ recentCpuAfter loadAvg recentCpu nice ∧
      recentCpuAfter loadAvg recentCpu nice ≤ (240 * n + 20) * fptF := by
  obtain ⟨nonneg, small⟩ := decay_bounds low high
  have below := Int.mul_le_mul_of_nonneg_left most nonneg
  have above := Int.mul_le_mul_of_nonneg_left least nonneg
  unfold recentCpuAfter
  rw [tdiv_fptF]
  generalize decay loadAvg * recentCpu = product at below above
  unfold fptF at *
  have below : product ≤ 120 * 16384 * (2 * n * 16384) := by nlinarith
  have above : -(20 * 16384) * (2 * n * 16384) ≤ product := by nlinarith
  split <;> omega

theorem calcRecentCpu_eq (exact : Exact fit) (few : n ≤ 64) (low : 0 ≤ loadAvg)
    (high : loadAvg ≤ n * fptF) (least : -(20 * (2 * n + 1)) * fptF ≤ recentCpu)
    (most : recentCpu ≤ 120 * (2 * n + 1) * fptF) (nices : -20 ≤ nice ∧ nice ≤ 20) :
    calcRecentCpu fit loadAvg recentCpu nice = some (recentCpuAfter loadAvg recentCpu nice) := by
  obtain ⟨nonneg, small⟩ := decay_bounds low high
  obtain ⟨above, below⟩ := recentCpuAfter_bounds low high least most nices
  have whole : decay loadAvg ≤ fptF := Int.ediv_le_of_le_mul (by unfold fptF; omega) (by
    unfold fptF
    omega)
  simp only [calcRecentCpu, fpMulInt, fpAddInt, fpDiv, fpMul, bind_eq_bind]
  unfold recentCpuAfter at above below ⊢
  have quotient : (loadAvg * 2 * fptF).tdiv (loadAvg * 2 + 1 * fptF) = decay loadAvg := by
    unfold fptF
    rw [Int.tdiv_eq_ediv_of_nonneg (by omega)]
    rfl
  generalize rest : (decay loadAvg * recentCpu).tdiv fptF = left at above below ⊢
  have scale : fptF = 16384 := rfl
  have added : nice * fptF = nice * 16384 := rfl
  have average : (n : Int) * fptF = n * 16384 := rfl
  have lowest : -(20 * (2 * (n : Int) + 1)) * fptF = -(20 * (2 * n + 1)) * 16384 := rfl
  have highest : (240 * (n : Int) + 20) * fptF = (240 * n + 20) * 16384 := rfl
  rw [exact (loadAvg * 2) (by omega) (by omega), exact (1 * fptF) (by omega) (by omega),
    exact (nice * fptF) (by omega) (by omega)]
  simp only [bind_some]
  rw [exact (loadAvg * 2 + 1 * fptF) (by omega) (by omega)]
  simp only [bind_some]
  rw [if_neg (by omega), quotient, exact _ (by omega) (by omega)]
  simp only [bind_some]
  rw [rest, exact left (by omega) (by omega), bind_some, exact _ (by omega) (by omega)]

theorem getter_rounds {x : Int} (small : |100 * x| + fptF / 2 < 2 ^ 31) :
    ∃ r, (do fpToIntRound fits (← fpMulInt fits x 100)) = some r ∧
      (do fpToIntRound wraps (← fpMulInt wraps x 100)) = some r ∧
      |fptF * r - 100 * x| ≤ fptF / 2 := by
  obtain ⟨low, high⟩ := abs_lt.mp (show |100 * x| < 2 ^ 31 - fptF / 2 by omega)
  have value : ∀ fit, Exact fit → (do fpToIntRound fit (← fpMulInt fit x 100)) =
      some ((x * 100 + if 0 ≤ x * 100 then fptF / 2 else -fptF / 2).tdiv fptF) := by
    intro fit exact
    unfold fptF at low high
    simp only [fpMulInt, fpToIntRound, bind_eq_bind]
    rw [exact (x * 100) (by omega) (by omega), bind_some,
      exact _ (by unfold fptF; split <;> omega) (by unfold fptF; split <;> omega), bind_some]
  refine ⟨_, value _ fits_exact, value _ wraps_exact, ?_⟩
  rw [tdiv_fptF, abs_le]
  unfold fptF at *
  constructor <;> split <;> split <;> omega

theorem recentCpuAfter_mono {low high : Int} (average : 0 ≤ loadAvg ∧ loadAvg ≤ n * fptF)
    (le : low ≤ high) (nice : Int) :
    recentCpuAfter loadAvg low nice ≤ recentCpuAfter loadAvg high nice := by
  have product := Int.mul_le_mul_of_nonneg_left le (decay_bounds average.1 average.2).1
  unfold recentCpuAfter
  rw [tdiv_fptF, tdiv_fptF]
  unfold fptF
  split <;> split <;> omega

namespace CpuTime

variable {Tid : Type} {s s' : CpuTime Tid} {t current : Tid} {readyList : List Tid}

/-! ## A timer interrupt -/

/-- The range of the numbers, `ticks` timer interrupts after the last second. -/
structure Numbers (n : Nat) (s : CpuTime Tid) (ticks : Int) : Prop where
  average : 0 ≤ s.loadAvg ∧ s.loadAvg ≤ n * fptF
  nice : ∀ t ∈ s.allList, -20 ≤ s.nice t ∧ s.nice t ≤ 20
  recentCpu : ∀ t ∈ s.allList, -(20 * (2 * n + 1)) * fptF ≤ s.recentCpu t ∧
    s.recentCpu t ≤ (240 * n + 20 + ticks) * fptF

/-- The invariant. -/
structure Bounded (n : Nat) (s : CpuTime Tid) : Prop where
  nodup : s.allList.Nodup
  few : s.allList.length ≤ n
  numbers : s.Numbers n (s.ticks % timerFreq)

variable [DecidableEq Tid]

theorem recalculate_eq (s : CpuTime Tid) (t : Tid) :
    ∃ priority, s.recalculate t = { s with priority } := by
  unfold recalculate
  split
  · exact ⟨_, rfl⟩
  · exact ⟨_, rfl⟩

/-- `thread_foreach (thread_calc_recent_cpu, NULL)`. -/
theorem Numbers.foreach (few : n ≤ 64) (numbers : s.Numbers n 100) {threads : List Tid}
    (nodup : threads.Nodup) (listed : threads ⊆ s.allList) : ∃ priority, ∀ fit, Exact fit →
      threads.foldlM (threadCalcRecentCpu · fit) s = some { s with
        priority
        recentCpu := fun t => if t ∈ threads then
          recentCpuAfter s.loadAvg (s.recentCpu t) (s.nice t) else s.recentCpu t } := by
  induction threads generalizing s with
  | nil => exact ⟨s.priority, fun _ _ => by simp⟩
  | cons t rest ih =>
    obtain ⟨notMem, nodup⟩ := nodup_cons.mp nodup
    have member := listed mem_cons_self
    obtain ⟨least, most⟩ := numbers.recentCpu t member
    have most : s.recentCpu t ≤ 120 * (2 * n + 1) * fptF := most.trans (by unfold fptF; omega)
    have after := recentCpuAfter_bounds numbers.average.1 numbers.average.2 least most
      (numbers.nice t member)
    let recentCpu := update s.recentCpu t (recentCpuAfter s.loadAvg (s.recentCpu t) (s.nice t))
    obtain ⟨priority, first⟩ := recalculate_eq { s with recentCpu } t
    have numbers' : ({ s with recentCpu, priority } : CpuTime Tid).Numbers n 100 := by
      refine ⟨numbers.average, numbers.nice, fun u mem => ?_⟩
      have old := numbers.recentCpu u mem
      simp only [recentCpu, update_apply]
      unfold fptF at *
      split <;> omega
    obtain ⟨priority', run⟩ := ih numbers' nodup fun u mem => listed (.tail _ mem)
    refine ⟨priority', fun fit exact => ?_⟩
    rw [foldlM_cons, threadCalcRecentCpu, calcRecentCpu_eq exact few numbers.average.1
      numbers.average.2 least most (numbers.nice t member)]
    refine (congrArg (List.foldlM _ · rest) first).trans ((run fit exact).trans ?_)
    congr 2
    funext u
    simp only [recentCpu, update_apply, mem_cons]
    grind

/-- `recent_cpu` after `thread_tick`. -/
def ticked (s : CpuTime Tid) (current t : Tid) : Int :=
  s.recentCpu t + if t = current ∧ some t ≠ s.idleThread then fptF else 0

theorem threadTick_eq (current : Tid) (range : -2 ^ 31 ≤ s.recentCpu current + fptF ∧ s.recentCpu
    current + fptF < 2 ^ 31) : ∃ priority, ∀ fit, Exact fit →
      s.threadTick fit current = some { s with priority, recentCpu := s.ticked current } := by
  unfold threadTick
  split
  · rename_i idle
    have same : s.ticked current = s.recentCpu := by
      funext t
      simp [ticked, ← idle]
    exact ⟨s.priority, fun _ _ => by rw [same]⟩
  rename_i busy
  let recentCpu := update s.recentCpu current (s.recentCpu current + fptF)
  obtain ⟨priority, same⟩ := recalculate_eq { s with recentCpu } current
  refine ⟨priority, fun fit exact => ?_⟩
  have one : fptF = 16384 := rfl
  simp only [fpAddInt, bind_eq_bind]
  rw [exact (1 * fptF) (by omega) (by omega), bind_some, Int.one_mul,
    exact _ range.1 range.2, bind_some]
  refine congrArg some (same.trans ?_)
  congr 1
  funext t
  simp only [recentCpu, ticked, update_apply]
  grind

/-- `load_avg` after the interrupt. -/
def newLoadAvg (s : CpuTime Tid) (current : Tid) (readyList : List Tid) : Int :=
  if (s.ticks + 1) % timerFreq = 0 then
    16110 * s.loadAvg / fptF + 273 * s.readyThreads current readyList
  else s.loadAvg

/-- `recent_cpu` after the interrupt. -/
def newRecentCpu (s : CpuTime Tid) (current : Tid) (readyList : List Tid) (t : Tid) : Int :=
  if (s.ticks + 1) % timerFreq = 0 ∧ t ∈ s.allList then
    recentCpuAfter (s.newLoadAvg current readyList) (s.ticked current t) (s.nice t)
  else s.ticked current t

theorem readyThreads_le (few : s.Few n (.tick current readyList)) :
    s.readyThreads current readyList ≤ s.allList.length := by
  have length := (subperm_of_subset few.1 few.2).length_le
  rw [length_cons] at length
  unfold readyThreads
  split <;> omega

section

variable (bounded : s.Bounded n)
include bounded

theorem Bounded.newLoadAvg (few : s.Few n (.tick current readyList)) :
    0 ≤ s.newLoadAvg current readyList ∧ s.newLoadAvg current readyList ≤ n * fptF := by
  have ready := (readyThreads_le few).trans bounded.few
  have average := bounded.numbers.average
  unfold CpuTime.newLoadAvg fptF at *
  split <;> omega

theorem Bounded.ticked (current : Tid) (mem : t ∈ s.allList) :
    -(20 * (2 * n + 1)) * fptF ≤ s.ticked current t ∧
      s.ticked current t ≤ (240 * n + 21 + s.ticks % timerFreq) * fptF := by
  have range := bounded.numbers.recentCpu t mem
  unfold CpuTime.ticked fptF at *
  split <;> omega

/-- In every arithmetic that is exact for numbers of 32 bits, an interrupt does the same. -/
theorem Bounded.timerInterrupt_eq (small : n ≤ 64) (few : s.Few n (.tick current readyList)) :
    ∃ priority, ∀ fit, Exact fit → s.timerInterrupt fit current readyList = some { s with
      priority
      ticks := s.ticks + 1
      loadAvg := s.newLoadAvg current readyList
      recentCpu := s.newRecentCpu current readyList } := by
  have member : current ∈ s.allList := few.2 mem_cons_self
  obtain ⟨priority, tick⟩ := threadTick_eq (s := { s with ticks := s.ticks + 1 }) current (by
      have range := bounded.numbers.recentCpu current member
      unfold fptF timerFreq at *
      dsimp only
      omega)
  unfold timerInterrupt CpuTime.newRecentCpu
  by_cases isSecond : (s.ticks + 1) % timerFreq = 0
  · have ready := (readyThreads_le few).trans bounded.few
    have average := bounded.numbers.average
    have isAvg : s.newLoadAvg current readyList = _ := if_pos isSecond
    obtain ⟨priority', foreach⟩ := Numbers.foreach small (s := { s with
        priority, ticks := s.ticks + 1, recentCpu := s.ticked current
        loadAvg := s.newLoadAvg current readyList })
      ⟨bounded.newLoadAvg few, bounded.numbers.nice, fun t mem => by
        have ticked := bounded.ticked current mem
        unfold fptF timerFreq at *
        dsimp only
        omega⟩ bounded.nodup fun _ => id
    refine ⟨priority', fun fit exact => ?_⟩
    simp only [tick fit exact, bind_eq_bind, bind_some, if_pos isSecond, threadCalcLoadAvg]
    change ((calcLoadAvg fit s.loadAvg (s.readyThreads current readyList)).bind _).bind _ = _
    rw [calcLoadAvg_eq exact average.1 average.2 (by omega) (by omega) (by omega)]
    simp only [isSecond, true_and]
    rw [isAvg] at foreach ⊢
    exact foreach fit exact
  refine ⟨priority, fun fit exact => ?_⟩
  have isAvg : s.newLoadAvg current readyList = s.loadAvg := if_neg isSecond
  simp only [tick fit exact, bind_eq_bind, bind_some, isSecond, false_and, if_false, isAvg]
  rfl

/-! ## All runs -/

theorem Bounded.timerInterrupt (small : n ≤ 64) (few : s.Few n (.tick current readyList))
    (run : s.timerInterrupt wraps current readyList = some s') : s'.Bounded n := by
  obtain ⟨priority, same⟩ := bounded.timerInterrupt_eq small few
  rw [same wraps wraps_exact] at run
  cases run
  refine ⟨bounded.nodup, bounded.few, bounded.newLoadAvg few, bounded.numbers.nice, fun t mem => ?_⟩
  have average := bounded.newLoadAvg few
  obtain ⟨least, most⟩ := bounded.ticked current mem
  have most' : s.ticked current t ≤ 120 * (2 * n + 1) * fptF := by
    unfold fptF timerFreq at *
    omega
  have after := recentCpuAfter_bounds average.1 average.2 least most' (bounded.numbers.nice t mem)
  dsimp only [CpuTime.newRecentCpu] at mem ⊢
  simp only [mem, and_true]
  unfold fptF timerFreq at *
  split <;> omega

theorem Bounded.threadSetNice {nice : Int}
    (run : s.threadSetNice current nice = some s') : s'.Bounded n := by
  simp only [CpuTime.threadSetNice, ite_none_right_eq_some, some.injEq] at run
  obtain ⟨range, run⟩ := run
  obtain ⟨priority, same⟩ := recalculate_eq { s with nice := update s.nice current nice } current
  rw [← run, same]
  refine ⟨bounded.nodup, bounded.few, bounded.numbers.average, fun t mem => ?_,
    bounded.numbers.recentCpu⟩
  have old := bounded.numbers.nice t mem
  simp only [update_apply]
  split <;> omega

theorem Bounded.initThread {child : Tid}
    (few : s.Few n (.create current child)) : (s.initThread current child).Bounded n := by
  obtain ⟨member, new, room⟩ := few
  obtain ⟨nodup, -, average, nice, recentCpu⟩ := bounded
  refine ⟨?_, ?_, average, fun t mem => ?_, fun t mem => ?_⟩
  · exact nodup_append.mpr ⟨nodup, nodup_singleton child, by grind⟩
  · unfold CpuTime.initThread
    rw [length_append]
    exact room
  · have parent := nice current member
    have old := nice t
    simp only [CpuTime.initThread, update_apply] at mem ⊢
    grind
  have parent := recentCpu current member
  have old := recentCpu t
  simp only [CpuTime.initThread, update_apply] at mem ⊢
  grind

theorem Bounded.next {step : CpuStep Tid} (small : n ≤ 64) (few : s.Few n step)
    (run : s.next step = some s') : s'.Bounded n := by
  cases step with
  | tick current readyList => exact bounded.timerInterrupt small few run
  | setNice current nice => exact bounded.threadSetNice run
  | create current child =>
    cases run
    exact bounded.initThread few
  | idle current =>
    cases run
    exact ⟨bounded.nodup, bounded.few, ⟨bounded.numbers.average, bounded.numbers.nice,
      bounded.numbers.recentCpu⟩⟩
  | exit current =>
    cases run
    obtain ⟨nodup, size, average, nice, recentCpu⟩ := bounded
    exact ⟨nodup.erase _, (length_erase_le ..).trans size, average,
      fun t mem => nice t (mem_of_mem_erase mem),
      fun t mem => recentCpu t (mem_of_mem_erase mem)⟩

end

omit [DecidableEq Tid] in
theorem Initial.bounded (pos : 0 < n) (init : s.Initial) : s.Bounded n := by
  obtain ⟨nice, recentCpu, average, ticks, -, t, all⟩ := init
  refine ⟨by simp [all], by rw [all]; exact pos, ⟨average.ge, ?_⟩, fun t _ => ?_, fun t _ => ?_⟩
  · rw [average]
    unfold fptF
    omega
  · rw [nice]
    decide
  · rw [recentCpu, ticks]
    unfold fptF timerFreq
    omega

theorem bounded_of_reachable (pos : 0 < n) (small : n ≤ 64)
    (reach : Reachable Initial next (Few n) s) : s.Bounded n :=
  Reachable.invariant (P := Bounded n) (fun _ => Initial.bounded pos)
    (fun _ _ _ bounded few run => bounded.next small few run) reach

/-- In every run with at most 64 threads, no operation of a timer interrupt overflows or divides
    by zero, and neither does `thread_get_load_avg`. If there are at most 4 threads,
    `thread_get_recent_cpu` does not overflow. Both round to the nearest number. -/
theorem cpu_time_fits (reached : Reachable Initial next (Few 64) s)
    (few : s.Few 64 (.tick current readyList)) :
    (∃ s', s.timerInterrupt fits current readyList = some s' ∧
      s.timerInterrupt wraps current readyList = some s') ∧
    (∃ r, s.threadGetLoadAvg fits = some r ∧ s.threadGetLoadAvg wraps = some r ∧
      |fptF * r - 100 * s.loadAvg| ≤ fptF / 2) ∧
    (Reachable Initial next (Few 4) s →
      ∃ r, s.threadGetRecentCpu fits current = some r ∧
        s.threadGetRecentCpu wraps current = some r ∧
        |fptF * r - 100 * s.recentCpu current| ≤ fptF / 2) := by
  have bounded := bounded_of_reachable (by decide) (Nat.le_refl 64) reached
  refine ⟨?_, ?_, fun fewer => getter_rounds ?_⟩
  · obtain ⟨priority, same⟩ := bounded.timerInterrupt_eq (Nat.le_refl 64) few
    exact ⟨_, same fits fits_exact, same wraps wraps_exact⟩
  · obtain ⟨low, high⟩ := bounded.numbers.average
    refine getter_rounds ?_
    rw [abs_of_nonneg (by omega)]
    unfold fptF at *
    omega
  · obtain ⟨low, high⟩ := (bounded_of_reachable (by decide) (by decide) fewer).numbers.recentCpu
      current (few.2 mem_cons_self)
    have near : |100 * s.recentCpu current| ≤ 100 * 1079 * fptF := by
      rw [abs_le]
      unfold fptF timerFreq at *
      omega
    unfold fptF at *
    omega

/-! ## A crowd of nice threads -/

/-- The initial thread. -/
def mlfqsStart : CpuTime Nat :=
  { priority := fun _ => priMax, nice := fun _ => 0, recentCpu := fun _ => 0, loadAvg := 0
    ticks := 0, idleThread := none, allList := [0] }

theorem mlfqsStart_initial : mlfqsStart.Initial :=
  ⟨fun _ => rfl, fun _ => rfl, rfl, rfl, rfl, 0, rfl⟩

instance (n : Nat) (s : CpuTime Tid) (step : CpuStep Tid) : Decidable (s.Few n step) := by
  unfold Few
  split <;> infer_instance

/-- The initial thread runs for a tick. -/
theorem cpu_time_fits_started : ∃ s : CpuTime Nat, Reachable Initial next (Few 4) s ∧
    s.recentCpu 0 = fptF ∧ s.threadGetRecentCpu wraps 0 = some 100 := by
  obtain ⟨s, reached, one, few⟩ := reachable_of_run CpuTime.next (Few 4) mlfqsStart_initial
    [.tick 0 []] (fun s => s.recentCpu 0 = fptF ∧ s.Few 64 (.tick 0 [])) (by decide +kernel)
  have fewer : Reachable Initial next (Few 64) s := reached.mono fun s step few => by
    cases step with
    | create => exact ⟨few.1, few.2.1, few.2.2.trans (by decide)⟩
    | _ => exact few
  obtain ⟨r, -, value, near⟩ := (cpu_time_fits fewer few).2.2 reached
  rw [one] at near
  have close := abs_le.mp near
  unfold fptF at close
  exact ⟨s, reached, one, value.trans (congrArg some (by omega))⟩

/-- Threads that are as nice as can be, each ready or running all the time. -/
structure Crowd (s : CpuTime Tid) (threads : List Tid) (loadAvg least : Int) : Prop where
  all : ∃ idle, s.idleThread = some idle ∧ s.allList.Perm (idle :: threads)
  average : s.loadAvg = loadAvg
  nice : ∀ t ∈ threads, s.nice t = 20
  least : ∀ t ∈ threads, least ≤ s.recentCpu t

variable {threads : List Tid} {loadAvg least : Int}

/-- The average and the lower bound after a second. -/
def crowdSecond (n : Nat) (x : Int × Int) : Int × Int :=
  let loadAvg := 16110 * x.1 / fptF + 273 * n
  (loadAvg, recentCpuAfter loadAvg x.2 20)

theorem Crowd.tick (crowd : s.Crowd threads loadAvg least) (bounded : s.Bounded 64)
    (order : (current :: readyList).Perm threads) : s.Few 64 (.tick current readyList) ∧
      ∃ s', s.next (.tick current readyList) = some s' ∧ s'.ticks = s.ticks + 1 ∧
        let x := if (s.ticks + 1) % timerFreq = 0 then crowdSecond threads.length (loadAvg, least)
          else (loadAvg, least)
        s'.Crowd threads x.1 x.2 := by
  obtain ⟨idle, isIdle, all⟩ := crowd.all
  have nodup := nodup_cons.mp (all.nodup_iff.mp bounded.nodup)
  have listed : threads ⊆ s.allList := fun t mem => all.mem_iff.mpr (.tail _ mem)
  have few : s.Few 64 (.tick current readyList) :=
    ⟨order.nodup_iff.mpr nodup.2, fun t mem => listed (order.mem_iff.mp mem)⟩
  obtain ⟨priority, same⟩ := bounded.timerInterrupt_eq (Nat.le_refl 64) few
  refine ⟨few, _, same wraps wraps_exact, rfl, ?_⟩
  have busy : current ≠ idle :=
    fun same => nodup.1 (same ▸ order.mem_iff.mp mem_cons_self)
  have ready : s.readyThreads current readyList = threads.length := by
    rw [← order.length_eq]
    simp [CpuTime.readyThreads, isIdle, busy]
  have low : ∀ t ∈ threads, least ≤ s.ticked current t := fun t mem => by
    have low := crowd.least t mem
    unfold CpuTime.ticked fptF
    split <;> omega
  have range := bounded.newLoadAvg few
  unfold CpuTime.newRecentCpu
  by_cases isSecond : (s.ticks + 1) % timerFreq = 0
  · have average : s.newLoadAvg current readyList =
        (crowdSecond threads.length (loadAvg, least)).1 := by
      rw [CpuTime.newLoadAvg, if_pos isSecond, ready, crowd.average]
      rfl
    rw [average] at range ⊢
    simp only [isSecond, if_true]
    refine ⟨crowd.all, rfl, crowd.nice, fun t mem => ?_⟩
    dsimp only
    rw [if_pos ⟨trivial, listed mem⟩, crowd.nice t mem]
    exact recentCpuAfter_mono range (low t mem) 20
  have average : s.newLoadAvg current readyList = loadAvg := (if_neg isSecond).trans crowd.average
  simp only [isSecond, false_and, if_false, average]
  exact ⟨crowd.all, rfl, crowd.nice, low⟩

/-- Round-robin with time slices of four ticks up to the end of a second. -/
theorem Crowd.ticks (crowd : s.Crowd threads loadAvg least) (busy : threads ≠ [])
    (reach : Reachable Initial next (Few 64) s) (k : Nat) (left : (s.ticks + k) % timerFreq = 0)
    (few : 0 < k ∧ k ≤ 100) : ∃ s' : CpuTime Tid, Reachable Initial next (Few 64) s' ∧
      s'.ticks = s.ticks + k ∧
      s'.Crowd threads (crowdSecond threads.length (loadAvg, least)).1
        (crowdSecond threads.length (loadAvg, least)).2 := by
  induction k generalizing s with
  | zero => omega
  | succ k ih =>
    have order := rotate_perm threads (s.ticks / 4).toNat
    cases rotated : threads.rotate (s.ticks / 4).toNat with
    | nil => exact absurd (rotate_eq_nil_iff.mp rotated) busy
    | cons current readyList =>
      rw [rotated] at order
      obtain ⟨guard, s1, run, ticks, crowd1⟩ := crowd.tick
        (bounded_of_reachable (by decide) (Nat.le_refl 64) reach) order
      have reached1 : Reachable Initial next (Few 64) s1 :=
        .step (a := .tick current readyList) reach guard run
      unfold timerFreq at left crowd1 ih
      cases k with
      | zero =>
        rw [if_pos (by omega)] at crowd1
        exact ⟨s1, reached1, ticks, crowd1⟩
      | succ k =>
        rw [if_neg (by omega)] at crowd1
        obtain ⟨s', reach', ticks', crowd'⟩ := ih crowd1 reached1 (by omega) (by omega)
        exact ⟨s', reach', by omega, crowd'⟩

theorem Crowd.seconds (crowd : s.Crowd threads loadAvg least) (busy : threads ≠ [])
    (reach : Reachable Initial next (Few 64) s) (start : s.ticks % timerFreq = 0) (k : Nat) :
    ∃ s' : CpuTime Tid, Reachable Initial next (Few 64) s' ∧
      s'.Crowd threads ((crowdSecond threads.length)^[k] (loadAvg, least)).1
        ((crowdSecond threads.length)^[k] (loadAvg, least)).2 := by
  induction k generalizing s loadAvg least with
  | zero => exact ⟨s, reach, crowd⟩
  | succ k ih =>
    obtain ⟨s1, reached1, ticks, crowd1⟩ := crowd.ticks busy reach 100
      (by unfold timerFreq at *; omega) (by decide)
    exact ih crowd1 reached1 (by unfold timerFreq at *; omega)

/-- The 63 threads. -/
def crowdThreads : List Nat := 0 :: List.range' 2 62

/-- After two minutes with 63 threads of `nice` 20, `recent_cpu` times 100 does not fit into 32
    bits. -/
theorem recent_cpu_overflows : ∃ s : CpuTime Nat, Reachable Initial next (Few 64) s ∧
    ∃ t ∈ s.allList, some t ≠ s.idleThread ∧ s.threadGetRecentCpu fits t = none := by
  obtain ⟨s, reached, all, idle, ⟨average, ticks⟩, nice, low⟩ :=
      reachable_of_run CpuTime.next (Few 64) mlfqsStart_initial
    (.create 0 1 :: .idle 1 :: .setNice 0 20 :: (List.range' 2 62).map (.create 0))
    (fun s => s.allList = 0 :: 1 :: List.range' 2 62 ∧ s.idleThread = some 1 ∧
      (s.loadAvg = 0 ∧ s.ticks = 0) ∧ (∀ t ∈ crowdThreads, s.nice t = 20) ∧
      ∀ t ∈ crowdThreads, 0 ≤ s.recentCpu t) (by decide +kernel)
  have crowd : s.Crowd crowdThreads 0 0 :=
    ⟨⟨1, idle, by rw [all]; exact .swap ..⟩, average, nice, low⟩
  obtain ⟨s', reached', crowd'⟩ := crowd.seconds (by decide) reached (by rw [ticks]; rfl) 120
  have large : 2 ^ 31 ≤ ((crowdSecond crowdThreads.length)^[120] (0, 0)).2 * 100 := by
    decide +kernel
  obtain ⟨idle', isIdle, all'⟩ := crowd'.all
  have nodup := all'.nodup_iff.mp (bounded_of_reachable (by decide) (Nat.le_refl 64) reached').nodup
  have low' := crowd'.least 0 mem_cons_self
  refine ⟨s', reached', 0, all'.mem_iff.mpr (by simp [crowdThreads]), fun idling => ?_, ?_⟩
  · obtain rfl := some.inj (idling.trans isIdle)
    exact (nodup_cons.mp nodup).1 mem_cons_self
  have tooLarge : fits (s'.recentCpu 0 * 100) = none := if_neg (by omega)
  rw [threadGetRecentCpu, fpMulInt, tooLarge]
  rfl

end CpuTime

end Pintos
