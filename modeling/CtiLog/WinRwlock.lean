import CtiLog.TryLock
import Mathlib.Data.Finset.Card
/-
# `Rwlock` on Windows

There the lock is a `CRITICAL_SECTION` and a count. The first reader enters the section for all of them, and the last
one leaves it; but a critical section belongs to the thread that has entered it. A thread that was the first in and is
not the last out makes another one leave a section it does not own, and can itself go in as a writer meanwhile.

Calls run one at a time here: calls that overlap race on `reader` and `isWr`, which are plain members.

| here | there |
| --- | --- |
| `CriticalSection.enter`, `.leave`            | `EnterCriticalSection`, `LeaveCriticalSection` |
| `WinRwlock.rdlock`, `WinRwlock.wrlock`       | `Rwlock::rdlock` (rwlock.cpp:38), `Rwlock::wrlock` (:59) |
| `WinRwlock.tryRdlock`, `WinRwlock.tryWrlock` | `Rwlock::tryRdlock` (:72), `Rwlock::tryWrlock` (:85) |
| `WinRwlock.unlock`                           | `Rwlock::unlock` (:98) |

* `win_works_iff` — it is a lock in exactly the runs in which the first reader in is the last one out.
-/

namespace CtiLog

open Runs

/-- How a call goes. -/
inductive Reply (α : Type*) where
  | waits
  /-- An `assert`, or a critical section left by a thread that is not its owner. -/
  | fails
  | returns (a : α)

namespace Reply

variable {α β : Type*}

def bind (x : Reply α) (f : α → Reply β) : Reply β :=
  match x with
  | waits => waits
  | fails => fails
  | returns a => f a

def map (f : α → β) (x : Reply α) : Reply β := x.bind fun a => returns (f a)

@[simp] theorem bind_waits (f : α → Reply β) : waits.bind f = waits := rfl
@[simp] theorem bind_fails (f : α → Reply β) : fails.bind f = fails := rfl
@[simp] theorem bind_returns (a : α) (f : α → Reply β) : (returns a).bind f = f a := rfl
@[simp] theorem map_waits (f : α → β) : map f waits = waits := rfl
@[simp] theorem map_fails (f : α → β) : map f fails = fails := rfl
@[simp] theorem map_returns (f : α → β) (a : α) : map f (returns a) = returns (f a) := rfl

/-- `assert(p)`, and on with `a`. -/
def assert (p : Prop) [Decidable p] (a : α) : Reply α := if p then returns a else fails

end Reply

/-! ## The lock -/

/-- The owner of a `CRITICAL_SECTION`, and how often it has entered. -/
abbrev CriticalSection (ι : Type*) := Option (ι × ℕ)

namespace CriticalSection

variable {ι : Type*} [DecidableEq ι]

/-- The owner may enter again. -/
def enter (cs : CriticalSection ι) (c : ι) : Reply (CriticalSection ι) :=
  match cs with
  | none => .returns (some (c, 1))
  | some (o, n) => if o = c then .returns (some (o, n + 1)) else .waits

def leave (cs : CriticalSection ι) (c : ι) : Reply (CriticalSection ι) :=
  match cs with
  | none => .fails
  | some (o, n) => if o = c then .returns (if n ≤ 1 then none else some (o, n - 1)) else .fails

end CriticalSection

structure WinRwlock (ι : Type*) where
  rwlock : CriticalSection ι
  isWr : Bool
  reader : Int

namespace WinRwlock

variable {ι : Type*} [DecidableEq ι]

/-- `Rwlock::Rwlock`. -/
def new : WinRwlock ι := ⟨none, false, 0⟩

def rdlock (l : WinRwlock ι) (c : ι) : Reply (WinRwlock ι) :=
  let locked :=
    if 0 < l.reader then .returns { l with reader := l.reader + 1 }
    else (l.rwlock.enter c).map fun cs => { l with rwlock := cs, reader := l.reader + 1 }
  locked.bind fun l => .assert (0 < l.reader) l

def wrlock (l : WinRwlock ι) (c : ι) : Reply (WinRwlock ι) :=
  (l.rwlock.enter c).bind fun cs => .assert (l.reader ≤ 0) { l with rwlock := cs, isWr := true }

def tryRdlock (l : WinRwlock ι) (c : ι) : Reply (Bool × WinRwlock ι) :=
  if l.isWr = false then (l.rdlock c).map (true, ·) else .returns (false, l)

def tryWrlock (l : WinRwlock ι) (c : ι) : Reply (Bool × WinRwlock ι) :=
  if l.isWr = false ∧ l.reader ≤ 0 then (l.wrlock c).map (true, ·) else .returns (false, l)

def unlock (l : WinRwlock ι) (c : ι) : Reply (WinRwlock ι) :=
  if l.isWr then (l.rwlock.leave c).map fun cs => { l with rwlock := cs, isWr := false }
  else
    let left :=
      if l.reader = 1 then (l.rwlock.leave c).map fun cs => { l with rwlock := cs, reader := l.reader - 1 }
      else .returns { l with reader := l.reader - 1 }
    left.bind fun l => .assert (0 ≤ l.reader) l

def lock (l : WinRwlock ι) : LockMode → ι → Reply (WinRwlock ι)
  | .rd, c => l.rdlock c
  | .wr, c => l.wrlock c

def tryLock (l : WinRwlock ι) : LockMode → ι → Reply (Bool × WinRwlock ι)
  | .rd, c => l.tryRdlock c
  | .wr, c => l.tryWrlock c

end WinRwlock

/-! ## Clients -/

/-- The lock, and who is in a section. -/
structure WinClients (ι : Type*) where
  lock : WinRwlock ι
  readers : Finset ι
  writers : Finset ι
  /-- A call has failed. -/
  failed : Bool

inductive WinCall (ι : Type*) where
  | lock (m : LockMode) (c : ι)
  | tryLock (m : LockMode) (c : ι)
  | unlock (c : ι)

section
variable {ι : Type*} [DecidableEq ι]

namespace WinClients

def start : WinClients ι := ⟨.new, ∅, ∅, false⟩

def Out (s : WinClients ι) (c : ι) : Prop := c ∉ s.readers ∧ c ∉ s.writers

instance (s : WinClients ι) (c : ι) : Decidable (s.Out c) :=
  inferInstanceAs (Decidable (c ∉ s.readers ∧ c ∉ s.writers))

/-- A client goes in when it is told `true`. -/
def enter (s : WinClients ι) (m : LockMode) (c : ι) (answer : Bool × WinRwlock ι) : WinClients ι :=
  match answer, m with
  | (false, l), _ => { s with lock := l }
  | (true, l), .rd => { s with lock := l, readers := insert c s.readers }
  | (true, l), .wr => { s with lock := l, writers := insert c s.writers }

def leave (s : WinClients ι) (c : ι) (l : WinRwlock ι) : WinClients ι :=
  { s with lock := l, readers := s.readers.erase c, writers := s.writers.erase c }

/-- How the call goes, and the clients if it returns. Nobody asks who is in, and nobody unlocks who is not. -/
def Calls (s : WinClients ι) : WinCall ι → Reply (WinClients ι) → Prop
  | .lock m c, r => s.Out c ∧ r = (s.lock.lock m c).map fun l => s.enter m c (true, l)
  | .tryLock m c, r => s.Out c ∧ r = (s.lock.tryLock m c).map (s.enter m c)
  | .unlock c, r => ¬ s.Out c ∧ r = (s.lock.unlock c).map (s.leave c)

end WinClients

/-- One call, unless it waits. -/
inductive WinStep (s : WinClients ι) : WinCall ι → WinClients ι → Prop
  | returns {a : WinCall ι} {t : WinClients ι} : s.Calls a (.returns t) → WinStep s a t
  | fails {a : WinCall ι} : s.Calls a .fails → WinStep s a { s with failed := true }

/-- What the clients rely on. -/
structure WinWorks (s : WinClients ι) : Prop where
  intact : s.failed = false
  /-- A writer is in its section alone. -/
  alone : ∀ w ∈ s.writers, s.writers = {w} ∧ s.readers = ∅
  /-- The lock knows who is in. -/
  isWr : s.lock.isWr = true ↔ s.writers.Nonempty
  reader : s.lock.reader = s.readers.card
  /-- The lock is free when everybody is out. -/
  free : s.readers = ∅ → s.writers = ∅ → s.lock.rwlock = none

/-- The client has entered the critical section. -/
def HasEntered (s : WinClients ι) (c : ι) : Prop := ∃ n, s.lock.rwlock = some (c, n)

/-- The first reader in, who has entered the critical section, is the last one out; or it is at least no
writer before the others are out. -/
def InOrder (s : WinClients ι) : WinCall ι → Prop
  | .unlock c => s.readers = {c} → HasEntered s c
  | .lock .wr c => ¬ HasEntered s c
  | _ => True

namespace WinClients

/-- `R` read, and `o` owns the critical section. -/
abbrev reading (o : ι) (R : Finset ι) : WinClients ι := ⟨⟨some (o, 1), false, R.card⟩, R, ∅, false⟩

abbrev writing (w : ι) : WinClients ι := ⟨⟨some (w, 1), true, 0⟩, ∅, {w}, false⟩

end WinClients

/-- Free, held by readers, or by a writer. -/
inductive WinInv : WinClients ι → Prop
  | free : WinInv .start
  | reading {o : ι} {R : Finset ι} : R.Nonempty → WinInv (.reading o R)
  | writing {w : ι} : WinInv (.writing w)

omit [DecidableEq ι] in
theorem WinInv.works {s : WinClients ι} (h : WinInv s) : WinWorks s := by
  cases h with
  | free =>
    refine ⟨rfl, fun w hw => ?_, ?_, rfl, fun _ _ => rfl⟩
    · simp [WinClients.start] at hw
    · simp [WinClients.start, WinRwlock.new]
  | reading hR =>
    refine ⟨rfl, fun w hw => ?_, ?_, rfl, fun hR' => ?_⟩
    · simp at hw
    · simp
    · exact absurd hR' hR.ne_empty
  | writing =>
    refine ⟨rfl, fun w hw => ?_, ?_, rfl, fun _ hW => ?_⟩
    · simpa [eq_comm] using hw
    · simp
    · simp at hW

/-! ### The calls in each of the three -/

namespace WinRwlock

variable {o w c : ι} {n : ℕ}

theorem lock_free (m : LockMode) (c : ι) : (new : WinRwlock ι).lock m c =
    .returns (match m with | .rd => ⟨some (c, 1), false, 1⟩ | .wr => ⟨some (c, 1), true, 0⟩) := by
  cases m with
  | rd => simp [lock, rdlock, new, CriticalSection.enter, Reply.assert]
  | wr => simp [lock, wrlock, new, CriticalSection.enter, Reply.assert]

theorem tryLock_free (m : LockMode) (c : ι) :
    (new : WinRwlock ι).tryLock m c = ((new : WinRwlock ι).lock m c).map (true, ·) := by
  cases m with
  | rd => simp [tryLock, tryRdlock, lock, new]
  | wr => simp [tryLock, tryWrlock, lock, new]

theorem rdlock_reading (hn : 0 < n) (c : ι) :
    (⟨some (o, 1), false, n⟩ : WinRwlock ι).rdlock c = .returns ⟨some (o, 1), false, n + 1⟩ := by
  have hpos : (0 : Int) < n + 1 := by omega
  simp [rdlock, hn, hpos, Reply.assert]

/-- The owner enters the critical section again, and the `assert` stops it. -/
theorem wrlock_reading (hn : 0 < n) (c : ι) :
    (⟨some (o, 1), false, n⟩ : WinRwlock ι).wrlock c = if o = c then .fails else .waits := by
  by_cases ho : o = c
  · simp [wrlock, CriticalSection.enter, ho, hn.ne', Reply.assert]
  · simp [wrlock, CriticalSection.enter, ho]

theorem tryWrlock_reading (hn : 0 < n) (c : ι) :
    (⟨some (o, 1), false, n⟩ : WinRwlock ι).tryWrlock c = .returns (false, ⟨some (o, 1), false, n⟩) := by
  simp [tryWrlock, hn.ne']

theorem unlock_last (c : ι) :
    (⟨some (o, 1), false, (1 : ℕ)⟩ : WinRwlock ι).unlock c = if o = c then .returns new else .fails := by
  by_cases ho : o = c
  · simp [unlock, CriticalSection.leave, ho, Reply.assert, new]
  · simp [unlock, CriticalSection.leave, ho]

theorem unlock_reading (hn : 1 < n) (c : ι) :
    (⟨some (o, 1), false, n⟩ : WinRwlock ι).unlock c = .returns ⟨some (o, 1), false, (n - 1 : ℕ)⟩ := by
  have hpos : n ≠ 0 := by omega
  have hcast : ((n - 1 : ℕ) : Int) = n - 1 := by omega
  simp [unlock, hn.ne', hpos, hcast, Reply.assert]

theorem lock_writing (hc : c ≠ w) (m : LockMode) : (⟨some (w, 1), true, 0⟩ : WinRwlock ι).lock m c = .waits := by
  cases m with
  | rd => simp [lock, rdlock, CriticalSection.enter, hc.symm]
  | wr => simp [lock, wrlock, CriticalSection.enter, hc.symm]

theorem tryLock_writing (m : LockMode) (c : ι) :
    (⟨some (w, 1), true, 0⟩ : WinRwlock ι).tryLock m c = .returns (false, ⟨some (w, 1), true, 0⟩) := by
  cases m with
  | rd => simp [tryLock, tryRdlock]
  | wr => simp [tryLock, tryWrlock]

theorem unlock_writing (w : ι) : (⟨some (w, 1), true, 0⟩ : WinRwlock ι).unlock w = .returns new := by
  simp [unlock, CriticalSection.leave, new]

end WinRwlock

/-! ## Runs -/

/-- How a call ends: in order, or in a failure. -/
def WinEnds (s : WinClients ι) (a : WinCall ι) (t : WinClients ι) : Prop :=
  InOrder s a ∧ WinInv t ∨ ¬ InOrder s a ∧ t.failed = true

variable {s t : WinClients ι} {a : WinCall ι} {r : Reply (WinClients ι)}

/-- What a call leaves, if it does not wait. -/
def WinLeft (s : WinClients ι) : Reply (WinClients ι) → WinClients ι → Prop
  | .waits, _ => False
  | .fails, t => t = { s with failed := true }
  | .returns u, t => t = u

theorem winStep_iff : WinStep s a t ↔ ∃ r, s.Calls a r ∧ WinLeft s r t := by
  constructor
  · rintro (h | h)
    · exact ⟨_, h, rfl⟩
    · exact ⟨_, h, rfl⟩
  · rintro ⟨r, h, hleft⟩
    cases r with
    | waits => exact hleft.elim
    | fails => exact hleft ▸ .fails h
    | returns u => exact hleft ▸ .returns h

/-- A free lock is taken. -/
theorem ends_enter_free (m : LockMode) {c : ι} {u : WinRwlock ι}
    (hu : (WinRwlock.new : WinRwlock ι).lock m c = .returns u) (ht : t = WinClients.start.enter m c (true, u)) :
    WinInv t := by
  rw [WinRwlock.lock_free] at hu
  cases hu
  cases m with
  | rd => exact ht ▸ WinInv.reading (o := c) (Finset.singleton_nonempty c)
  | wr => exact ht ▸ WinInv.writing (w := c)

theorem ends_free (h : WinClients.start.Calls a r) (hleft : WinLeft .start r t) : WinEnds .start a t := by
  cases a with
  | lock m c =>
    obtain ⟨-, rfl⟩ := h
    have hlock := WinRwlock.lock_free m c
    refine .inl ⟨?_, ends_enter_free m hlock ?_⟩
    · cases m with
      | rd => trivial
      | wr =>
        rintro ⟨n, hn⟩
        cases hn
    · rw [show WinClients.start.lock = (WinRwlock.new : WinRwlock ι) from rfl, hlock] at hleft
      exact hleft
  | tryLock m c =>
    obtain ⟨-, rfl⟩ := h
    have hlock := WinRwlock.lock_free m c
    refine .inl ⟨trivial, ends_enter_free m hlock ?_⟩
    rw [show WinClients.start.lock = (WinRwlock.new : WinRwlock ι) from rfl, WinRwlock.tryLock_free, hlock] at hleft
    exact hleft
  | unlock c => exact absurd ⟨Finset.notMem_empty c, Finset.notMem_empty c⟩ h.1

section
variable {o : ι} {R : Finset ι}

/-- One more reader. -/
theorem winInv_insert {c : ι} (hc : c ∉ R) :
    WinInv (⟨⟨some (o, 1), false, R.card + 1⟩, insert c R, ∅, false⟩ : WinClients ι) := by
  have hcard : ((insert c R).card : Int) = R.card + 1 := by rw [Finset.card_insert_of_notMem hc, Nat.cast_succ]
  rw [← hcard]
  exact .reading (Finset.insert_nonempty c R)

theorem ends_unlock_reading {c : ι} (hc : c ∈ R)
    (hleft : WinLeft (.reading o R)
      (((⟨some (o, 1), false, R.card⟩ : WinRwlock ι).unlock c).map ((WinClients.reading o R).leave c)) t) :
    WinEnds (.reading o R) (.unlock c) t := by
  by_cases hone : R.card = 1
  · -- the last one out
    obtain ⟨d, rfl⟩ := Finset.card_eq_one.1 hone
    obtain rfl := Finset.mem_singleton.1 hc
    rw [Finset.card_singleton, WinRwlock.unlock_last] at hleft
    by_cases ho : o = c
    · rw [if_pos ho] at hleft
      refine .inl ⟨fun _ => ⟨1, by rw [ho]⟩, ?_⟩
      have ht : t = .start := by simpa [WinLeft, WinClients.leave, WinClients.start] using hleft
      exact ht ▸ .free
    · rw [if_neg ho] at hleft
      refine .inr ⟨fun h => ?_, ?_⟩
      · obtain ⟨n, hn⟩ := h rfl
        cases hn
        exact ho rfl
      · rw [hleft]
  · have hlt : 1 < R.card := by
      have hpos := Finset.card_pos.2 ⟨c, hc⟩
      omega
    have hcard : (R.erase c).card = R.card - 1 := Finset.card_erase_of_mem hc
    rw [WinRwlock.unlock_reading hlt] at hleft
    refine .inl ⟨fun h => absurd (congrArg Finset.card h) hone, ?_⟩
    have ht : t = .reading o (R.erase c) := by simpa [WinLeft, WinClients.leave, WinClients.reading, hcard] using hleft
    rw [ht]
    exact .reading (Finset.card_pos.1 (by omega))

theorem ends_reading (hR : R.Nonempty) (h : (WinClients.reading o R).Calls a r)
    (hleft : WinLeft (.reading o R) r t) : WinEnds (.reading o R) a t := by
  have hpos : 0 < R.card := Finset.card_pos.2 hR
  cases a with
  | lock m c =>
    obtain ⟨hout, rfl⟩ := h
    cases m with
    | rd =>
      simp only [WinRwlock.lock, WinRwlock.rdlock_reading hpos, Reply.map_returns] at hleft
      exact .inl ⟨trivial, hleft ▸ winInv_insert hout.1⟩
    | wr =>
      simp only [WinRwlock.lock, WinRwlock.wrlock_reading hpos] at hleft
      by_cases ho : o = c
      · rw [if_pos ho] at hleft
        refine .inr ⟨fun hin => hin ⟨1, by rw [ho]⟩, ?_⟩
        rw [hleft]
      · rw [if_neg ho] at hleft
        exact hleft.elim
  | tryLock m c =>
    obtain ⟨hout, rfl⟩ := h
    cases m with
    | rd =>
      simp only [WinRwlock.tryLock, WinRwlock.tryRdlock, WinRwlock.rdlock_reading hpos, if_true,
        Reply.map_returns] at hleft
      exact .inl ⟨trivial, hleft ▸ winInv_insert hout.1⟩
    | wr =>
      simp only [WinRwlock.tryLock, WinRwlock.tryWrlock_reading hpos, Reply.map_returns] at hleft
      exact .inl ⟨trivial, hleft ▸ .reading hR⟩
  | unlock c =>
    obtain ⟨hin, rfl⟩ := h
    refine ends_unlock_reading ?_ hleft
    by_contra hc
    exact hin ⟨hc, Finset.notMem_empty c⟩

end

theorem ends_writing {w : ι} (h : (WinClients.writing w).Calls a r)
    (hleft : WinLeft (.writing w) r t) : WinEnds (.writing w) a t := by
  cases a with
  | lock m c =>
    obtain ⟨hout, rfl⟩ := h
    have hc : c ≠ w := fun hc => hout.2 (Finset.mem_singleton.2 hc)
    simp only [WinRwlock.lock_writing hc] at hleft
    exact hleft.elim
  | tryLock m c =>
    obtain ⟨-, rfl⟩ := h
    simp only [WinRwlock.tryLock_writing, Reply.map_returns] at hleft
    exact .inl ⟨trivial, hleft ▸ .writing⟩
  | unlock c =>
    obtain ⟨hin, rfl⟩ := h
    have hc : c = w := by
      by_contra hc
      exact hin ⟨Finset.notMem_empty c, fun hw => hc (Finset.mem_singleton.1 hw)⟩
    subst hc
    simp only [WinRwlock.unlock_writing, Reply.map_returns] at hleft
    refine .inl ⟨fun hR => absurd hR.symm (Finset.singleton_ne_empty c), ?_⟩
    have ht : t = .start := by simpa [WinLeft, WinClients.leave, WinClients.start] using hleft
    exact ht ▸ .free

/-- **Step lemma.** -/
theorem winStep_ends (h : WinInv s) (hst : WinStep s a t) : WinEnds s a t := by
  obtain ⟨r, hcalls, hleft⟩ := winStep_iff.1 hst
  cases h with
  | free => exact ends_free hcalls hleft
  | reading hR => exact ends_reading hR hcalls hleft
  | writing => exact ends_writing hcalls hleft

/-- **On Windows, `Rwlock` is a lock in exactly the runs in which the first reader in is the last one out**, or at
least does not write before. -/
theorem win_works_iff {as : List (WinCall ι)} :
    Run (Kept WinWorks WinStep) .start as t ↔ Run (Guarded InOrder WinStep) .start as t := by
  refine Run.kept_iff WinInv WinWorks .free (fun s a t h hst => ?_) (fun s a t h hst hG => ?_)
  · rcases winStep_ends h hst with ⟨hG, hinv⟩ | ⟨hG, hfailed⟩
    · exact iff_of_true hinv.works hG
    · exact iff_of_false (fun hw => by simp [hw.intact] at hfailed) hG
  · exact ((winStep_ends h hst).resolve_right fun h' => h'.1 hG).2

end

/-- 0 and 1 read, and 0 is out first: when 1 goes, it leaves the critical section of 0. -/
theorem first_out_fails : ∃ t : WinClients (Fin 2),
    Run WinStep .start [.lock .rd 0, .lock .rd 1, .unlock 0, .unlock 1] t ∧ t.failed = true := by
  have h0 : WinStep (.start : WinClients (Fin 2)) (.lock .rd 0) ⟨⟨some (0, 1), false, 1⟩, {0}, ∅, false⟩ :=
    .returns ⟨by decide, rfl⟩
  have h1 : WinStep (⟨⟨some (0, 1), false, 1⟩, {0}, ∅, false⟩ : WinClients (Fin 2)) (.lock .rd 1)
      ⟨⟨some (0, 1), false, 2⟩, {1, 0}, ∅, false⟩ := .returns ⟨by decide, rfl⟩
  have h2 : WinStep (⟨⟨some (0, 1), false, 2⟩, {1, 0}, ∅, false⟩ : WinClients (Fin 2)) (.unlock 0)
      ⟨⟨some (0, 1), false, 1⟩, {1}, ∅, false⟩ := .returns ⟨by decide, rfl⟩
  exact ⟨_, .snoc (.snoc (.snoc (.single h0) h1) h2) (.fails ⟨by decide, rfl⟩), rfl⟩

end CtiLog
