import Mcsos.Kmem.Recovery

/-!
Contract: which buffers the heap stays in.

`kmem_init` takes the header of its one block off the size without looking at
it. A buffer that does not hold a header becomes a block of nearly `2 ^ 64`
bytes; in every other buffer the heap stays, whatever the calls.
-/

namespace Mcsos.Kmem

open Mcsos.Machine
open Mcsos.Machine.Prog

/-- `kmem_get_free_bytes` returns, and at most the size of the buffer. -/
def FreeBytesFit (size : UInt64) (w : KmemWorld) : Prop :=
  ∃ total, kmemGetFreeBytes w = some total ∧ total ≤ size

/-- What the call returns is in the buffer for as many bytes as were asked for,
and the free bytes fit afterwards. -/
structure StaysInBuffer (buffer size : UInt64) (session : Session) (call : HeapCall) : Prop where
  inBuffer : ∀ request, call = .kmalloc request → ∀ ptr,
    (kmalloc request).result session.world = some ptr → ptr ≠ 0 →
      buffer.toNat ≤ ptr.toNat ∧ ptr.toNat + request.toNat ≤ buffer.toNat + size.toNat
  freeBytes : FreeBytesFit size (session.next call).world

theorem deref_kmemInit (buffer size : UInt64) (w : KmemWorld) :
    ((kmemInit buffer size).final w).deref buffer = ⟨size - sizeofKmemBlock, true, 0⟩ := by
  simp [kmemInit]

/-- Right after `kmem_init`, the difference that it stored is free. -/
theorem kmemInit_freeBytes {buffer : UInt64} (notNull : buffer ≠ 0) (size : UInt64)
    (w : KmemWorld) :
    kmemGetFreeBytes ((kmemInit buffer size).final w) = some (size - sizeofKmemBlock) := by
  have place :
      (⟨buffer.toNat, (size - sizeofKmemBlock).toNat, true⟩ : Segment).pointer = buffer := by
    rw [Segment.pointer, UInt64.ofNat_toNat]
  have stored : Stored ((kmemInit buffer size).final w)
      [⟨buffer.toNat, (size - sizeofKmemBlock).toNat, true⟩] := by
    refine ⟨?_, trivial⟩
    rw [place, deref_kmemInit, UInt64.ofNat_toNat]
    rfl
  have walk := stored.freeBytesFrom (by simpa [place] using notNull)
    (show _ < walkRounds by simp [walkRounds]) 0
  rw [pointerTo, place, UInt64.zero_add] at walk
  show freeBytesFrom _ walkRounds buffer 0 = _
  rw [walk]
  simp [freeTotal]

/-- They fit exactly when the difference is one. -/
theorem kmemInit_freeBytesFit_iff {buffer : UInt64} (notNull : buffer ≠ 0) (size : UInt64)
    (w : KmemWorld) :
    FreeBytesFit size ((kmemInit buffer size).final w) ↔ 24 ≤ size.toNat := by
  have free := kmemInit_freeBytes notNull size w
  have small := size.toNat_lt
  have header : sizeofKmemBlock.toNat = 24 := rfl
  unfold FreeBytesFit
  simp only [free, Option.some.injEq, exists_eq_left', UInt64.le_iff_toNat_le, UInt64.toNat_sub,
    header]
  omega

/-! ### One call -/

section

variable {buffer size : UInt64} {session : Session} {segments : List Segment}
  (usable : Buffer buffer size)

include usable

theorem Represents.freeBytesFit {w : KmemWorld} (represents : Represents buffer size w segments) :
    FreeBytesFit size w := by
  obtain ⟨total, ends, bound⟩ := (represents.walkable usable).freeBytesEnds
  refine ⟨total, ends, ?_⟩
  rw [UInt64.le_iff_toNat_le]
  omega

/-- What is returned is one more allocation that is held. -/
theorem Holdings.staysInBuffer (holdings : Holdings buffer size session segments)
    {call : HeapCall} (allowed : session.Allowed call) :
    StaysInBuffer buffer size session call := by
  have after := (holdings.undisturbed usable allowed).2
  refine ⟨?_, after.represents.freeBytesFit usable⟩
  intro request isRequest ptr answer notNull
  subst isRequest
  have live : ⟨ptr, request⟩ ∈ (session.next (.kmalloc request)).live := by
    simp [Session.next, answer, notNull]
  exact after.inBuffer live

end

/-! ### Whole runs -/

/-- The heap stays in its buffer exactly where the buffer holds a header. -/
theorem run_staysInBuffer_iff {buffer size : UInt64} (notNull : buffer ≠ 0)
    (inMemory : buffer.toNat + size.toNat ≤ 2 ^ 64) (w : KmemWorld) {calls : List HeapCall}
    (allowed : EveryCall Session.next Session.Allowed calls (started buffer size w)) :
    (FreeBytesFit size (started buffer size w).world ∧
        EveryCall Session.next (StaysInBuffer buffer size) calls (started buffer size w)) ↔
      24 ≤ size.toNat := by
  have first := kmemInit_freeBytesFit_iff notNull size w
  constructor
  · intro stays
    exact first.mp stays.1
  · intro holdsHeader
    have usable : Buffer buffer size := ⟨notNull, inMemory, holdsHeader⟩
    refine ⟨first.mpr holdsHeader, everyCall_of_holdings usable ?_ w allowed⟩
    intro session segments call holdings keepsTo
    exact holdings.staysInBuffer usable keepsTo

theorem run_staysInBuffer_fits :
    EveryCall Session.next (StaysInBuffer 4096 200) [.kmalloc 40, .kmalloc 300, .kmalloc 1]
      (started 4096 200 ⟨fun _ => 0xAA, 0⟩) := by
  have allowed : EveryCall Session.next Session.Allowed [.kmalloc 40, .kmalloc 300, .kmalloc 1]
      (started 4096 200 ⟨fun _ => 0xAA, 0⟩) := ⟨trivial, trivial, trivial, trivial⟩
  exact ((run_staysInBuffer_iff (by decide) (by decide) _ allowed).mpr (by decide)).2

/-- A buffer of 16 bytes: a request for 100 is granted, behind its end. -/
theorem smallBuffer_overrun :
    ¬ ∀ (buffer size : UInt64) (w : KmemWorld) (calls : List HeapCall), buffer ≠ 0 →
      buffer.toNat + size.toNat ≤ 2 ^ 64 →
      EveryCall Session.next Session.Allowed calls (started buffer size w) →
      EveryCall Session.next (StaysInBuffer buffer size) calls (started buffer size w) := by
  intro always
  have stays := always 4096 16 ⟨fun _ => 0xAA, 0⟩ [.kmalloc 100] (by decide) (by decide)
    ⟨trivial, trivial⟩
  have granted : (kmalloc 100).result (started 4096 16 ⟨fun _ => 0xAA, 0⟩).world = some 4120 := by
    decide +kernel
  exact absurd (stays.1.inBuffer 100 rfl 4120 granted (by decide)).2 (by decide)

end Mcsos.Kmem
