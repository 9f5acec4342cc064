import Pintos.Threads.CpuTime

/-!
# The load average

`thread_calc_load_avg` truncates both coefficients and the product. Each step loses less than
`(N + 1) / 2 ^ 14` if there are at most `N` ready threads, and what was lost before shrinks by the
first coefficient, so the loss never gets larger than `(N + 1) / 274`.
-/

namespace Pintos

open Option

variable {fit : Int → Option Int} {la n N : Int}

theorem calcLoadAvg_eq (exact : Exact fit) (low : 0 ≤ la) (high : la ≤ N * fptF) (nonneg : 0 ≤ n)
    (most : n ≤ N) (small : N < 100000) :
    calcLoadAvg fit la n = some (16110 * la / fptF + 273 * n) := by
  simp only [calcLoadAvg, intToFp, fpDiv, fpMul, fpAdd, fptF, bind_eq_bind] at high ⊢
  rw [exact (n * 16384) (by omega) (by omega), exact (59 * 16384) (by decide) (by decide),
    exact (60 * 16384) (by decide) (by decide), exact (1 * 16384) (by decide) (by decide)]
  simp only [bind_some]
  rw [if_neg (by decide), if_neg (by decide), exact _ (by decide) (by decide),
    exact _ (by decide) (by decide)]
  have k1 : (59 * 16384 * 16384 : Int).tdiv (60 * 16384) = 16110 := by decide
  have k2 : (1 * 16384 * 16384 : Int).tdiv (60 * 16384) = 273 := by decide
  rw [k1, k2]
  simp only [bind_some]
  rw [Int.tdiv_eq_ediv_of_nonneg (by omega), Int.tdiv_eq_ediv_of_nonneg (by omega)]
  rw [exact _ (by omega) (by omega), exact _ (by omega) (by omega)]
  simp only [bind_some]
  rw [exact _ (by omega) (by omega)]
  congr 2
  omega

/-- `load_avg` is below the average, but not far below. -/
structure Tracks (N : Nat) (average : ℚ) (loadAvg : Int) : Prop where
  nonneg : 0 ≤ loadAvg
  below : (loadAvg : ℚ) / fptF ≤ average
  most : average ≤ N
  near : average - loadAvg / fptF ≤ (N + 1) / 274

theorem Tracks.step {N n : Nat} {average : ℚ} {loadAvg : Int} (tracks : Tracks N average loadAvg)
    (most : n ≤ N) (small : N < 100000) :
    ∃ after, calcLoadAvg wraps loadAvg n = some after ∧
      Tracks N (59 / 60 * average + n / 60) after := by
  obtain ⟨nonneg, below, bound, near⟩ := tracks
  have high : loadAvg ≤ N * fptF := by
    have scaled : (loadAvg : ℚ) ≤ N * 16384 := by
      simp only [fptF] at below
      push_cast at below
      linarith
    unfold fptF
    exact_mod_cast scaled
  refine ⟨_, calcLoadAvg_eq wraps_exact nonneg high (Int.natCast_nonneg n) (by omega) (by omega), ?_⟩
  -- the truncation of the product loses less than one unit
  have floor : (16110 * loadAvg : ℚ) - 16384 < 16384 * (16110 * loadAvg / fptF : Int) ∧
      16384 * (16110 * loadAvg / fptF : Int) ≤ (16110 * loadAvg : ℚ) := by
    unfold fptF
    constructor
    · have exact : 16110 * loadAvg - 16384 < 16384 * (16110 * loadAvg / 16384) := by omega
      exact_mod_cast exact
    · have exact : 16384 * (16110 * loadAvg / 16384) ≤ 16110 * loadAvg := by omega
      exact_mod_cast exact
  have ready : (n : ℚ) ≤ N := by exact_mod_cast most
  have pos : (0 : ℚ) ≤ n := Nat.cast_nonneg n
  have start : (0 : ℚ) ≤ loadAvg := by exact_mod_cast nonneg
  obtain ⟨above, under⟩ := floor
  unfold fptF at below near above under ⊢
  push_cast at below near above under ⊢
  refine ⟨by omega, ?_, by linarith, ?_⟩
  · unfold fptF
    push_cast
    linarith
  unfold fptF
  push_cast
  linarith

/-- At every step of every sequence of counts up to `N`. -/
theorem load_avg_tracks_average {N : Nat} (small : N < 100000) (readyThreads : List Nat)
    (most : ∀ n ∈ readyThreads, n ≤ N) :
    ∃ loadAvg, loadAvgAfter readyThreads = some loadAvg ∧ 0 ≤ loadAvg ∧
      (loadAvg : ℚ) / fptF ≤ movingAverage readyThreads ∧
      movingAverage readyThreads - loadAvg / fptF ≤ (N + 1) / 274 := by
  have run : ∀ (ns : List Nat) average loadAvg, (∀ n ∈ ns, n ≤ N) → Tracks N average loadAvg →
      ∃ after, ns.foldlM (fun loadAvg (n : Nat) => calcLoadAvg wraps loadAvg n) loadAvg = some after ∧
        Tracks N (ns.foldl (fun average (n : Nat) => 59 / 60 * average + n / 60) average) after := by
    intro ns
    induction ns with
    | nil => exact fun average loadAvg _ tracks => ⟨loadAvg, rfl, tracks⟩
    | cons n rest ih =>
      intro average loadAvg most tracks
      obtain ⟨next, first, tracks⟩ := tracks.step (most n List.mem_cons_self) small
      obtain ⟨after, run, tracks⟩ := ih _ next (fun n mem => most n (.tail _ mem)) tracks
      exact ⟨after, by rw [List.foldlM_cons, first]; exact run, tracks⟩
  have start : Tracks N 0 0 :=
    ⟨le_rfl, by simp, Nat.cast_nonneg N, by simp; positivity⟩
  obtain ⟨loadAvg, run, tracks⟩ := run readyThreads 0 0 most start
  exact ⟨loadAvg, run, tracks.nonneg, tracks.below, tracks.near⟩

/-- Two threads are ready for a second, and one for the next. -/
theorem load_avg_tracks_average_two : loadAvgAfter [2, 1] = some 809 ∧
    movingAverage [2, 1] - 809 / fptF ≤ 3 / 274 := by
  obtain ⟨loadAvg, run, -, -, near⟩ := load_avg_tracks_average (N := 2) (by decide) [2, 1]
    (by decide)
  have value : loadAvgAfter [2, 1] = some 809 := by decide
  obtain rfl : loadAvg = 809 := some.inj (run.symm.trans value)
  refine ⟨value, ?_⟩
  norm_num at near ⊢
  linarith

end Pintos
