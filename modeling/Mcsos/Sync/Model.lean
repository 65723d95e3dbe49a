import Mcsos.Machine.Interleaving

/-!
The locks of `kernel/sync`: `m12_spinlock.c` and `m12_mutex.c` over
`mcs_sync.h`, and threads that use them.

The two builtins are the atomic steps. A call that makes one of them and
nothing else is a function on the lock; the two calls that wait are loops,
whose rounds are steps of the thread between which others may run.
-/

namespace Mcsos.Sync

open Mcsos.Machine

/-- `struct mcs_spinlock`. -/
structure McsSpinlock where
  locked : UInt32
deriving DecidableEq, Repr

/-- `struct mcs_mutex`. -/
structure McsMutex where
  locked : UInt32
deriving DecidableEq, Repr

/-! ### Atomic builtins -/

/-- `__sync_lock_test_and_set`: the value before, and the value stored. -/
def syncLockTestAndSet (word value : UInt32) : UInt32 × UInt32 := (word, value)

/-- `__sync_lock_release`: the value stored. -/
def syncLockRelease (_word : UInt32) : UInt32 := 0

/-! ### Spinlock -/

def mcsSpinInit (_lock : McsSpinlock) : McsSpinlock := ⟨0⟩

/-- The answer and the lock after it. -/
def mcsSpinTryLock (lock : McsSpinlock) : Bool × McsSpinlock :=
  let (old, new) := syncLockTestAndSet lock.locked 1
  (old == 0, ⟨new⟩)

def mcsSpinUnlock (lock : McsSpinlock) : McsSpinlock := ⟨syncLockRelease lock.locked⟩

/-- Where a thread that uses a spinlock is. -/
inductive SpinPoint where
  /-- Outside the calls, without the lock. -/
  | outside
  /-- In `mcs_spin_lock`, in front of the condition of its loop. -/
  | locking
  /-- In `mcs_spin_lock`, in front of `mcs_cpu_pause`. -/
  | pausing
  /-- In a call of `mcs_spin_try_lock`. -/
  | trying
  /-- Between a successful acquire and the release in `mcs_spin_unlock`. -/
  | holding
deriving DecidableEq, Repr

/-- The atomic steps of a thread that takes and gives back a spinlock. -/
inductive SpinStep : AtomicStep SpinPoint McsSpinlock where
  | callLock (lock : McsSpinlock) : SpinStep .outside lock .locking lock
  | callTryLock (lock : McsSpinlock) : SpinStep .outside lock .trying lock
  | lockRound (lock : McsSpinlock) :
      SpinStep .locking lock (if (mcsSpinTryLock lock).1 then .holding else .pausing)
        (mcsSpinTryLock lock).2
  | pause (lock : McsSpinlock) : SpinStep .pausing lock .locking lock
  | tryLock (lock : McsSpinlock) :
      SpinStep .trying lock (if (mcsSpinTryLock lock).1 then .holding else .outside)
        (mcsSpinTryLock lock).2
  | unlock (lock : McsSpinlock) : SpinStep .holding lock .outside (mcsSpinUnlock lock)

/-! ### Mutex -/

def mcsMutexInit (_mutex : McsMutex) : McsMutex := ⟨0⟩

/-- The condition of the loop of `mcs_mutex_lock`: whether it goes on, and the
mutex after it. -/
def mcsMutexLockRound (mutex : McsMutex) : Bool × McsMutex :=
  let (old, new) := syncLockTestAndSet mutex.locked 1
  (old != 0, ⟨new⟩)

def mcsMutexUnlock (mutex : McsMutex) : McsMutex := ⟨syncLockRelease mutex.locked⟩

/-- Where a thread that uses a mutex is. -/
inductive MutexPoint where
  /-- Outside the calls, without the mutex. -/
  | outside
  /-- In `mcs_mutex_lock`, in front of the condition of its loop. -/
  | locking
  /-- Between a successful acquire and the release in `mcs_mutex_unlock`. -/
  | holding
deriving DecidableEq, Repr

/-- The atomic steps of a thread that takes and gives back a mutex. -/
inductive MutexStep : AtomicStep MutexPoint McsMutex where
  | callLock (mutex : McsMutex) : MutexStep .outside mutex .locking mutex
  | lockRound (mutex : McsMutex) :
      MutexStep .locking mutex (if (mcsMutexLockRound mutex).1 then .locking else .holding)
        (mcsMutexLockRound mutex).2
  | unlock (mutex : McsMutex) : MutexStep .holding mutex .outside (mcsMutexUnlock mutex)

end Mcsos.Sync
