import Pintos.Devices.Intq

/-!
# Interrupt queues deliver in order

In every interleaving the bytes come out in the order in which they went in, none is lost and none
comes twice. The assertion of `_wait` is another matter: the queue is tested before the lock is
acquired, and a thread that sleeps for the lock can find the queue in another state when it has
it. It cannot fail as long as a thread that has to wait finds the lock free.
-/

namespace Pintos.Intq

open Function Option

variable {Tid : Type} {q q' : Intq Tid} {t : Tid} {call : IntqCall} {priority : Tid → Int}

/-! ## The buffer -/

/-- What is in the buffer is what was put in and not taken out. -/
structure Fifo (q : Intq Tid) : Prop where
  head : q.head < intqBufsize
  tail : q.tail < intqBufsize
  order : q.sent = q.received ++ q.contents

/-- The threads move, and the buffer stays as it was. -/
structure SameBuffer (q q' : Intq Tid) : Prop where
  buf : q'.buf = q.buf
  head : q'.head = q.head
  tail : q'.tail = q.tail
  sent : q'.sent = q.sent
  received : q'.received = q.received

theorem SameBuffer.fifo (same : q.SameBuffer q') (fifo : q.Fifo) : q'.Fifo where
  head := same.head ▸ fifo.head
  tail := same.tail ▸ fifo.tail
  order := by
    unfold contents
    rw [same.sent, same.received, same.buf, same.head, same.tail]
    exact fifo.order

theorem SameBuffer.trans {q'' : Intq Tid} (first : q.SameBuffer q') (second : q'.SameBuffer q'') :
    q.SameBuffer q'' where
  buf := second.buf.trans first.buf
  head := second.head.trans first.head
  tail := second.tail.trans first.tail
  sent := second.sent.trans first.sent
  received := second.received.trans first.received

theorem Initial.fifo (init : q.Initial) : q.Fifo where
  head := init.head ▸ by decide
  tail := init.tail ▸ by decide
  order := by
    unfold contents
    rw [init.sent, init.received, init.head, init.tail]
    rfl

variable [DecidableEq Tid]

theorem sameBuffer_of_wait (run : q.wait t call = some q') : q.SameBuffer q' := by
  unfold wait at run
  obtain ⟨-, run⟩ := ite_none_right_eq_some.mp run
  cases call <;> cases run <;> exact ⟨rfl, rfl, rfl, rfl, rfl⟩

theorem sameBuffer_of_unblock {u : Tid} (run : q.unblock u = some q') : q.SameBuffer q' := by
  unfold unblock at run
  split at run
  · cases run
    exact ⟨rfl, rfl, rfl, rfl, rfl⟩
  · cases run

theorem sameBuffer_of_signalNotEmpty (run : q.signalNotEmpty = some q') : q.SameBuffer q' := by
  unfold signalNotEmpty at run
  obtain ⟨-, run⟩ := ite_none_left_eq_some.mp run
  split at run
  · cases run
    exact ⟨rfl, rfl, rfl, rfl, rfl⟩
  obtain ⟨mid, unblock, run⟩ := bind_eq_some_iff.mp run
  cases run
  exact (sameBuffer_of_unblock unblock).trans ⟨rfl, rfl, rfl, rfl, rfl⟩

theorem sameBuffer_of_signalNotFull (run : q.signalNotFull = some q') : q.SameBuffer q' := by
  unfold signalNotFull at run
  obtain ⟨-, run⟩ := ite_none_left_eq_some.mp run
  split at run
  · cases run
    exact ⟨rfl, rfl, rfl, rfl, rfl⟩
  obtain ⟨mid, unblock, run⟩ := bind_eq_some_iff.mp run
  cases run
  exact (sameBuffer_of_unblock unblock).trans ⟨rfl, rfl, rfl, rfl, rfl⟩

theorem sameBuffer_of_lockTurn (run : q.lockTurn t call = some q') : q.SameBuffer q' := by
  unfold lockTurn at run
  split at run
  · cases run
    exact ⟨rfl, rfl, rfl, rfl, rfl⟩
  · obtain ⟨buf, head, tail, sent, received⟩ := sameBuffer_of_wait run
    exact ⟨buf, head, tail, sent, received⟩

theorem sameBuffer_of_lockRelease {woken : Option Tid}
    (run : q.lockRelease t priority = some (woken, q')) : q.SameBuffer q' := by
  unfold lockRelease at run
  obtain ⟨-, run⟩ := ite_none_right_eq_some.mp run
  split at run
  · cases run
    exact ⟨rfl, rfl, rfl, rfl, rfl⟩
  obtain ⟨m, -, run⟩ := bind_eq_some_iff.mp run
  split at run
  · cases run
    exact ⟨rfl, rfl, rfl, rfl, rfl⟩
  · cases run

theorem Fifo.transfer (fifo : q.Fifo) (free : ¬ q.Stuck call) (run : q.transfer call = some q') :
    q'.Fifo := by
  cases call with
  | getc =>
    refine (sameBuffer_of_signalNotFull run).fifo ⟨fifo.head, ringNext_lt (by decide) _, ?_⟩
    have pop : q.contents = q.buf q.tail :: ringContents intqBufsize q.buf q.head
        (ringNext intqBufsize q.tail) := ringContents_pop fifo.head fifo.tail free q.buf
    show q.sent = q.received ++ [q.buf q.tail] ++ ringContents ..
    rw [fifo.order, pop, List.append_assoc, List.singleton_append]
  | putc byte =>
    refine (sameBuffer_of_signalNotEmpty run).fifo ⟨ringNext_lt (by decide) _, fifo.tail, ?_⟩
    have push : ringContents intqBufsize (update q.buf q.head byte)
        (ringNext intqBufsize q.head) q.tail = q.contents ++ [byte] :=
      ringContents_push fifo.head fifo.tail free q.buf byte
    show q.sent ++ [byte] = q.received ++ ringContents ..
    rw [push, fifo.order, List.append_assoc]

theorem Fifo.loop (fifo : q.Fifo) (run : q.loop t call = some q') : q'.Fifo := by
  unfold Intq.loop at run
  split at run
  · obtain ⟨-, run⟩ := ite_none_left_eq_some.mp run
    exact (sameBuffer_of_lockTurn run).fifo fifo
  rename_i free
  obtain ⟨mid, transfer, run⟩ := bind_eq_some_iff.mp run
  cases run
  exact SameBuffer.fifo (q := mid) ⟨rfl, rfl, rfl, rfl, rfl⟩ (fifo.transfer free transfer)

theorem Fifo.goOn (fifo : q.Fifo) (run : q.goOn t priority = some q') : q'.Fifo := by
  unfold Intq.goOn at run
  split at run
  · exact (sameBuffer_of_lockTurn run).fifo fifo
  · obtain ⟨⟨woken, mid⟩, release, run⟩ := bind_eq_some_iff.mp run
    have fifoMid := (sameBuffer_of_lockRelease release).fifo fifo
    dsimp only at run
    by_cases yields : ∃ m ∈ woken, priority t < priority m
    · rw [if_pos yields] at run
      cases run
      exact SameBuffer.fifo (q := mid) ⟨rfl, rfl, rfl, rfl, rfl⟩ fifoMid
    · rw [if_neg yields] at run
      exact fifoMid.loop run
  · exact fifo.loop run
  · cases run

theorem Fifo.next (fifo : q.Fifo) {step : IntqStep Tid} (taken : q.next step = some q') :
    q'.Fifo := by
  obtain ⟨enabled, run⟩ := ite_none_right_eq_some.mp taken
  cases step with
  | call t call => exact fifo.loop run
  | resume t priority => exact fifo.goOn run
  | interrupt call => exact fifo.transfer enabled run

/-! ## The assertions -/

/-- The lock is free and no thread is in a slot. -/
structure Unlocked (q : Intq Tid) : Prop where
  lockWaiters : q.lockWaiters = []
  lockValue : q.lockValue = 1
  lockHolder : q.lockHolder = none
  notEmpty : q.notEmpty = none
  notFull : q.notFull = none

/-- How far a thread with the lock has come, and the slots of the queue. -/
inductive Sleeps (q : Intq Tid) (t : Tid) : Prop where
  | getc (place : q.place t = .waiting .getc) (notEmpty : q.notEmpty = some t)
      (notFull : q.notFull = none)
  | putc (byte : Byte) (place : q.place t = .waiting (.putc byte)) (notEmpty : q.notEmpty = none)
      (notFull : q.notFull = some t)
  | signalled (call : IntqCall) (place : q.place t = .signalled call) (notEmpty : q.notEmpty = none)
      (notFull : q.notFull = none)

/-- One thread has the lock, and no other one is in a call. -/
structure Held (q : Intq Tid) (t : Tid) : Prop where
  lockWaiters : q.lockWaiters = []
  lockValue : q.lockValue = 0
  lockHolder : q.lockHolder = some t
  others : ∀ u, u ≠ t → q.place u = .outside
  sleeps : q.Sleeps t

/-- At most one thread is in a call when no thread runs in the queue. -/
def Solo (q : Intq Tid) : Prop := (q.Unlocked ∧ ∀ u, q.place u = .outside) ∨ ∃ t, q.Held t

omit [DecidableEq Tid] in
theorem Sleeps.not_outside (sleeps : q.Sleeps t) : q.place t ≠ .outside := by
  cases sleeps <;> simp_all

omit [DecidableEq Tid] in
theorem Sleeps.of_same (sleeps : q.Sleeps t) (place : q'.place t = q.place t)
    (notEmpty : q'.notEmpty = q.notEmpty) (notFull : q'.notFull = q.notFull) : q'.Sleeps t := by
  cases sleeps with
  | getc at' slot empty => exact .getc (place.trans at') (notEmpty.trans slot) (notFull.trans empty)
  | putc byte at' empty slot =>
    exact .putc byte (place.trans at') (notEmpty.trans empty) (notFull.trans slot)
  | signalled call at' empty empty' =>
    exact .signalled call (place.trans at') (notEmpty.trans empty) (notFull.trans empty')

theorem signalNotEmpty_of_none (filled : ¬ q.Empty) (slot : q.notEmpty = none) :
    q.signalNotEmpty = some q := by
  unfold signalNotEmpty
  rw [if_neg filled, slot]

theorem signalNotFull_of_none (room : ¬ q.Full) (slot : q.notFull = none) :
    q.signalNotFull = some q := by
  unfold signalNotFull
  rw [if_neg room, slot]

theorem Held.signalNotEmpty (held : q.Held t) (filled : ¬ q.Empty) :
    ∃ q', q.signalNotEmpty = some q' ∧ q'.Held t := by
  cases held.sleeps with
  | getc place notEmpty notFull =>
    unfold Intq.signalNotEmpty
    rw [if_neg filled]
    simp only [notEmpty, unblock, place, bind_eq_bind, bind_some]
    refine ⟨_, rfl, held.lockWaiters, held.lockValue, held.lockHolder, fun u other => ?_,
      .signalled .getc (update_self ..) rfl notFull⟩
    exact (update_of_ne other ..).trans (held.others u other)
  | putc byte place notEmpty notFull => exact ⟨q, signalNotEmpty_of_none filled notEmpty, held⟩
  | signalled call place notEmpty notFull => exact ⟨q, signalNotEmpty_of_none filled notEmpty, held⟩

theorem Held.signalNotFull (held : q.Held t) (room : ¬ q.Full) :
    ∃ q', q.signalNotFull = some q' ∧ q'.Held t := by
  cases held.sleeps with
  | getc place notEmpty notFull => exact ⟨q, signalNotFull_of_none room notFull, held⟩
  | putc byte place notEmpty notFull =>
    unfold Intq.signalNotFull
    rw [if_neg room]
    simp only [notFull, unblock, place, bind_eq_bind, bind_some]
    refine ⟨_, rfl, held.lockWaiters, held.lockValue, held.lockHolder, fun u other => ?_,
      .signalled (.putc byte) (update_self ..) notEmpty rfl⟩
    exact (update_of_ne other ..).trans (held.others u other)
  | signalled call place notEmpty notFull => exact ⟨q, signalNotFull_of_none room notFull, held⟩

omit [DecidableEq Tid] in
theorem Fifo.room_of_getc (fifo : q.Fifo) (filled : ¬ q.Empty) :
    ringNext intqBufsize q.head ≠ ringNext intqBufsize q.tail := by
  have head : q.head < 64 := fifo.head
  have tail : q.tail < 64 := fifo.tail
  have differ : q.head ≠ q.tail := filled
  show (q.head + 1) % 64 ≠ (q.tail + 1) % 64
  omega

theorem Held.transfer (held : q.Held t) (fifo : q.Fifo) (free : ¬ q.Stuck call) :
    ∃ q', q.transfer call = some q' ∧ q'.Held t := by
  obtain ⟨lockWaiters, lockValue, lockHolder, others, sleeps⟩ := held
  cases call with
  | getc =>
    exact Held.signalNotFull
      ⟨lockWaiters, lockValue, lockHolder, others, sleeps.of_same rfl rfl rfl⟩
      (fifo.room_of_getc free)
  | putc byte =>
    exact Held.signalNotEmpty
      ⟨lockWaiters, lockValue, lockHolder, others, sleeps.of_same rfl rfl rfl⟩ free

theorem Unlocked.transfer (unlocked : q.Unlocked) (fifo : q.Fifo) (free : ¬ q.Stuck call) :
    ∃ q', q.transfer call = some q' ∧ q'.Unlocked ∧ q'.place = q.place := by
  obtain ⟨lockWaiters, lockValue, lockHolder, notEmpty, notFull⟩ := unlocked
  cases call with
  | getc =>
    exact ⟨_, signalNotFull_of_none (fifo.room_of_getc free) notFull,
      ⟨lockWaiters, lockValue, lockHolder, notEmpty, notFull⟩, rfl⟩
  | putc byte =>
    exact ⟨_, signalNotEmpty_of_none free notEmpty,
      ⟨lockWaiters, lockValue, lockHolder, notEmpty, notFull⟩, rfl⟩

theorem Unlocked.loop (unlocked : q.Unlocked) (fifo : q.Fifo)
    (others : ∀ u, u ≠ t → q.place u = .outside) : ∃ q', q.loop t call = some q' ∧ q'.Solo := by
  unfold Intq.loop
  by_cases stuck : q.Stuck call
  · rw [if_pos stuck, if_neg (by simp [unlocked.lockHolder])]
    unfold Intq.lockTurn Intq.wait
    rw [if_neg (by simp [unlocked.lockValue])]
    have others' (u : Tid) (other : u ≠ t) (place : IntqPlace) :
        update q.place t place u = .outside :=
      (update_of_ne other ..).trans (others u other)
    have lockValue : q.lockValue - 1 = 0 := by rw [unlocked.lockValue]
    cases call with
    | getc =>
      refine ⟨_, if_pos stuck, .inr ⟨t, unlocked.lockWaiters, lockValue, rfl,
        fun u other => others' u other _, ?_⟩⟩
      exact .getc (update_self ..) rfl unlocked.notFull
    | putc byte =>
      refine ⟨_, if_pos stuck, .inr ⟨t, unlocked.lockWaiters, lockValue, rfl,
        fun u other => others' u other _, ?_⟩⟩
      exact .putc byte (update_self ..) unlocked.notEmpty rfl
  rw [if_neg stuck]
  obtain ⟨mid, transfer, unlockedMid, place⟩ := unlocked.transfer fifo stuck
  rw [transfer]
  obtain ⟨lockWaiters, lockValue, lockHolder, notEmpty, notFull⟩ := unlockedMid
  refine ⟨_, rfl, .inl ⟨⟨lockWaiters, lockValue, lockHolder, notEmpty, notFull⟩, fun u => ?_⟩⟩
  show update mid.place t .outside u = .outside
  by_cases self : u = t
  · rw [self, update_self]
  · rw [update_of_ne self, place, others u self]

/-- A thread that does not have to wait passes by the one that has the lock. -/
theorem Held.loop {u : Tid} (held : q.Held t) (fifo : q.Fifo) (outside : q.place u = .outside)
    (free : ¬ q.Stuck call) : ∃ q', q.loop u call = some q' ∧ q'.Solo := by
  unfold Intq.loop
  rw [if_neg free]
  obtain ⟨mid, transfer, lockWaiters, lockValue, lockHolder, others, sleeps⟩ :=
    held.transfer fifo free
  rw [transfer]
  have other : t ≠ u := fun same => held.sleeps.not_outside (same ▸ outside)
  have same : update mid.place u .outside = mid.place := by
    rw [← others u other.symm, update_eq_self]
  refine ⟨_, rfl, .inr ⟨t, lockWaiters, lockValue, lockHolder, ?_, ?_⟩⟩
  · show ∀ v, v ≠ t → update mid.place u .outside v = .outside
    rw [same]
    exact others
  · exact sleeps.of_same (congrFun same t) rfl rfl

/-- The thread that was signalled gives the lock back, and tests the queue again. -/
theorem Held.goOn (held : q.Held t) (fifo : q.Fifo)
    (ready : (q.place t).Ready) : ∃ q', q.goOn t priority = some q' ∧ q'.Solo := by
  cases held.sleeps with
  | getc place | putc byte place =>
    rw [place] at ready
    exact ready.elim
  | signalled call place notEmpty notFull =>
    unfold Intq.goOn Intq.lockRelease
    simp only [place, held.lockHolder, held.lockWaiters, ↓reduceIte, bind_eq_bind,
      bind_some, mem_def, reduceCtorEq, false_and, exists_false]
    exact Unlocked.loop ⟨rfl, congrArg (· + 1) held.lockValue, rfl, notEmpty, notFull⟩
      ⟨fifo.head, fifo.tail, fifo.order⟩ held.others

theorem Solo.act (solo : q.Solo) (fifo : q.Fifo) {step : IntqStep Tid} (enabled : q.Enabled step)
    (alone : q.Alone step) : ∃ q', q.act step = some q' ∧ q'.Solo := by
  rcases solo with ⟨unlocked, outside⟩ | ⟨t, held⟩
  · cases step with
    | call t call => exact unlocked.loop fifo fun u _ => outside u
    | resume t priority =>
      have ready : (q.place t).Ready := enabled
      rw [outside t] at ready
      exact ready.elim
    | interrupt call =>
      obtain ⟨q', run, unlocked', place⟩ := unlocked.transfer fifo enabled
      exact ⟨q', run, .inl ⟨unlocked', fun u => place ▸ outside u⟩⟩
  cases step with
  | call u call => exact held.loop fifo enabled fun stuck => alone stuck held.lockValue
  | resume u priority =>
    have self : u = t := by
      by_contra other
      have ready : (q.place u).Ready := enabled
      rw [held.others u other] at ready
      exact ready
    subst self
    exact held.goOn fifo enabled
  | interrupt call =>
    obtain ⟨q', run, held'⟩ := held.transfer fifo enabled
    exact ⟨q', run, .inr ⟨t, held'⟩⟩

omit [DecidableEq Tid] in
theorem Initial.solo (init : q.Initial) : q.Solo :=
  .inl ⟨⟨init.lockWaiters, init.lockValue, init.lockHolder, init.notEmpty,
    init.notFull⟩, init.place⟩

end Pintos.Intq

namespace Pintos

open Function Intq

/-- In every interleaving of calls by threads and interrupt handlers, the bytes that came out and
    those in the queue are the bytes that went in, in that order, and there are at most
    `INTQ_BUFSIZE - 1` of them in the queue. If in addition every thread that had to wait found
    the lock free, no assertion fails in the next step. -/
theorem intq_delivers_in_order (Tid : Type) [DecidableEq Tid] :
    (∀ q : Intq Tid, Reachable Initial next AnyStep q →
      q.sent = q.received ++ q.contents ∧ q.contents.length ≤ intqBufsize - 1) ∧
    ∀ q : Intq Tid, Reachable Initial next Alone q →
      ∀ step, q.Enabled step → q.Alone step → (q.act step).isSome := by
  refine ⟨fun q reach => ?_, fun q reach step enabled alone => ?_⟩
  · have fifo : q.Fifo := by
      refine reach.invariant (fun s initial => initial.fifo) fun s step s' fifo _ taken => ?_
      exact fifo.next taken
    exact ⟨fifo.order, Nat.le_sub_one_of_lt (length_ringContents_lt (by decide) q.buf ..)⟩
  have invariant : q.Fifo ∧ q.Solo := by
    refine reach.invariant (P := fun q => q.Fifo ∧ q.Solo)
      (fun s initial => ⟨initial.fifo, initial.solo⟩)
      fun s step s' holds alone taken => ⟨holds.1.next taken, ?_⟩
    obtain ⟨enabled, run⟩ := Option.ite_none_right_eq_some.mp taken
    obtain ⟨q', run', solo⟩ := holds.2.act holds.1 enabled alone
    cases run.symm.trans run'
    exact solo
  obtain ⟨q', run, -⟩ := invariant.2.act invariant.1 enabled alone
  rw [run]
  rfl

namespace Intq

/-- The queue after `intq_init`. -/
def start : Intq Nat :=
  ⟨fun _ => 0, 0, 0, none, none, 1, [], none, fun _ => .outside, [], []⟩

theorem start_initial : start.Initial := ⟨rfl, rfl, rfl, rfl, rfl, rfl, rfl, fun _ => rfl, rfl, rfl⟩

end Intq

/-- A reader waits, an interrupt handler puts two bytes in, a second reader takes the first one and
    the reader that waited goes on. -/
theorem intq_delivers_in_order_overtaken :
    ∃ q : Intq Nat, (Reachable Initial next AnyStep q ∧ Reachable Initial next Alone q ∧
      q.received = [7] ∧ q.Enabled (.resume 1 fun _ => 31)) ∧
      q.sent = q.received ++ q.contents ∧ (q.act (.resume 1 fun _ => 31)).isSome := by
  obtain ⟨q, reach, received, enabled⟩ := reachable_of_run next Alone start_initial
    [.call 1 .getc, .interrupt (.putc 7), .interrupt (.putc 8), .call 2 .getc]
    (fun q => q.received = [7] ∧ q.Enabled (.resume 1 fun _ => 31)) (by decide)
  have any : Reachable Initial next AnyStep q := reach.mono fun _ _ _ => trivial
  refine ⟨q, ⟨any, reach, received, enabled⟩, ?_, ?_⟩
  · exact ((intq_delivers_in_order Nat).1 q any).1
  · exact (intq_delivers_in_order Nat).2 q reach (.resume 1 fun _ => 31) enabled trivial

/-- Two readers find the queue empty: the first waits with the lock, the second one for the lock.
    A byte arrives and wakes the first reader; its `lock_release` yields to the second one, which
    has the higher priority. That one calls `_wait` now, and the queue is not empty. -/
theorem second_reader_waits_on_filled_queue :
    ∃ q : Intq Nat, Reachable Initial next AnyStep q ∧ ¬ q.Empty ∧
      q.place 2 = .woken .getc ∧ q.Enabled (.resume 2 fun t => t) ∧
      q.act (.resume 2 fun t => t) = none := by
  obtain ⟨q, reach, filled, place, enabled, fails⟩ := reachable_of_run next AnyStep start_initial
    [.call 1 .getc, .call 2 .getc, .interrupt (.putc 7), .resume 1 fun t => t]
    (fun q => ¬ q.Empty ∧ q.place 2 = .woken .getc ∧ q.Enabled (.resume 2 fun t => t) ∧
      (q.act (.resume 2 fun t => t)).isNone = true) (by decide)
  exact ⟨q, reach, filled, place, enabled, Option.isNone_iff_eq_none.mp fails⟩

end Pintos
