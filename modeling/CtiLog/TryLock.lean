import CtiLog.Runs
/-
# `Rwlock` and the answers of its try functions (POSIX)

Clients of one `Rwlock`. A client enters its section when `rdlock` or `wrlock` returns, or when a
try function tells it `true`, and calls `unlock` on its way out. On POSIX the try functions return
the `int` of `pthread_rwlock_try*lock` as a `bool`.

| here | there |
| --- | --- |
| `Rwlock.rdlock`, `Rwlock.wrlock`       | `Rwlock::rdlock` (rwlock.cpp:38), `Rwlock::wrlock` (:59) |
| `Rwlock.tryRdlock`, `Rwlock.tryWrlock` | `Rwlock::tryRdlock` (:72), `Rwlock::tryWrlock` (:85) |
| `Rwlock.unlock`                      | `Rwlock::unlock` (:98) |

`Answers` is what the clients rely on. The runs that keep it are exactly the runs in which nobody
calls a try function (`answers_iff`): the one that acquires says `false`, the one that does not says
`true`.
-/

namespace CtiLog

open Runs

/-! ## The lock -/

inductive LockMode where
  | rd | wr
deriving DecidableEq, Repr

/-- Who holds a `pthread_rwlock_t`, and how. -/
abbrev Rwlock (ι : Type*) := ι → Option LockMode

namespace Rwlock

variable {ι : Type*} [DecidableEq ι]

/-- What `pthread_rwlock_rdlock` and `pthread_rwlock_wrlock` wait for. -/
def Free (l : Rwlock ι) : LockMode → Prop
  | .rd => ∀ c, l c ≠ some .wr
  | .wr => ∀ c, l c = none

def take (l : Rwlock ι) (m : LockMode) (c : ι) : Rwlock ι := Function.update l c (some m)

def rdlock (l : Rwlock ι) (c : ι) : Rwlock ι := l.take .rd c
def wrlock (l : Rwlock ι) (c : ι) : Rwlock ι := l.take .wr c

/-- `pthread_rwlock_tryrdlock` and `pthread_rwlock_trywrlock`: 0 with the lock taken, or an `errno`. -/
def pthreadTry (l : Rwlock ι) (m : LockMode) (c : ι) (rc : Nat) : Rwlock ι := if rc = 0 then l.take m c else l

/-- The conversion of an `int` to `bool` on `return`. -/
def toBool (rc : Nat) : Bool := rc != 0

def tryRdlock (l : Rwlock ι) (c : ι) (rc : Nat) : Bool × Rwlock ι := (toBool rc, l.pthreadTry .rd c rc)
def tryWrlock (l : Rwlock ι) (c : ι) (rc : Nat) : Bool × Rwlock ι := (toBool rc, l.pthreadTry .wr c rc)

def unlock (l : Rwlock ι) (c : ι) : Rwlock ι := Function.update l c none

end Rwlock

/-! ## Clients -/

/-- The lock, and the section each client is in. -/
structure Clients (ι : Type*) where
  lock : Rwlock ι
  inside : ι → Option LockMode

inductive LockCall (ι : Type*) where
  | rdlock (c : ι)
  | wrlock (c : ι)
  | tryRdlock (c : ι) (rc : Nat)
  | tryWrlock (c : ι) (rc : Nat)
  | unlock (c : ι)

def LockCall.isTry {ι : Type*} : LockCall ι → Bool
  | .tryRdlock _ _ | .tryWrlock _ _ => true
  | _ => false

namespace Clients

variable {ι : Type*} [DecidableEq ι]

def start : Clients ι := ⟨fun _ => none, fun _ => none⟩

/-- A client goes in when it is told `true`. -/
def enter (s : Clients ι) (c : ι) (m : LockMode) (answer : Bool × Rwlock ι) : Clients ι :=
  ⟨answer.2, if answer.1 then Function.update s.inside c (some m) else s.inside⟩

end Clients

/-- One call. A try function that acquires the lock (`rc = 0`) finds it free for its mode. -/
inductive LockStep {ι : Type*} [DecidableEq ι] (s : Clients ι) : LockCall ι → Clients ι → Prop
  | rdlock {c : ι} : s.inside c = none → s.lock.Free .rd →
      LockStep s (.rdlock c) (s.enter c .rd (true, s.lock.rdlock c))
  | wrlock {c : ι} : s.inside c = none → s.lock.Free .wr →
      LockStep s (.wrlock c) (s.enter c .wr (true, s.lock.wrlock c))
  | tryRdlock {c : ι} {rc : Nat} : s.inside c = none → (rc = 0 → s.lock.Free .rd) →
      LockStep s (.tryRdlock c rc) (s.enter c .rd (s.lock.tryRdlock c rc))
  | tryWrlock {c : ι} {rc : Nat} : s.inside c = none → (rc = 0 → s.lock.Free .wr) →
      LockStep s (.tryWrlock c rc) (s.enter c .wr (s.lock.tryWrlock c rc))
  | unlock {c : ι} {m : LockMode} : s.inside c = some m →
      LockStep s (.unlock c) ⟨s.lock.unlock c, Function.update s.inside c none⟩

/-- What the clients rely on. -/
structure Answers {ι : Type*} (s : Clients ι) : Prop where
  /-- A client holds the lock, in its mode, exactly while it is in its section. -/
  trusted : ∀ c, s.lock c = s.inside c
  /-- A writer is in its section alone. -/
  alone : ∀ c d, s.inside c = some .wr → s.inside d ≠ none → d = c
  /-- The lock is free when everybody is out. -/
  free : (∀ c, s.inside c = none) → s.lock.Free .wr

section
variable {ι : Type*} {s t : Clients ι}

theorem answers_start : Answers (Clients.start : Clients ι) where
  trusted := fun _ => rfl
  alone := fun _ _ h => by cases h
  free := fun _ _ => rfl

theorem answers_of_trusted (ht : ∀ c, s.lock c = s.inside c)
    (ha : ∀ c d, s.inside c = some .wr → s.inside d ≠ none → d = c) : Answers s :=
  ⟨ht, ha, fun h c => (ht c).trans (h c)⟩

variable [DecidableEq ι]

/-- Taking a free lock, and going in. -/
theorem Answers.take (h : Answers s) {c : ι} {m : LockMode} (hc : s.inside c = none) (hfree : s.lock.Free m) :
    Answers (s.enter c m (true, s.lock.take m c)) := by
  refine answers_of_trusted (fun d => ?_) (fun d e hd he => ?_)
  · by_cases hdc : d = c
    · subst hdc; simp [Clients.enter, Rwlock.take]
    · simp [Clients.enter, Rwlock.take, hdc, h.trusted]
  · simp only [Clients.enter, if_true, Function.update_apply] at hd he
    cases m with
    | rd =>
      -- a reader that goes in has seen no writer
      split at hd
      · cases hd
      · exact absurd ((h.trusted d).trans hd) (hfree d)
    | wr =>
      have hout : ∀ x, s.inside x = none := fun x => (h.trusted x).symm.trans (hfree x)
      rw [hout] at hd he
      split at hd <;> split at he <;> simp_all

theorem Answers.unlock (h : Answers s) (c : ι) : Answers ⟨s.lock.unlock c, Function.update s.inside c none⟩ := by
  refine answers_of_trusted (fun d => ?_) (fun d e hd he => ?_)
  · by_cases hdc : d = c
    · subst hdc; simp [Rwlock.unlock]
    · simp [Rwlock.unlock, hdc, h.trusted]
  · simp only [Function.update_apply] at hd he
    split at hd
    · cases hd
    · split at he
      · exact absurd rfl he
      · exact h.alone d e hd he

/-- **The answer is the wrong way round**: whatever a try function did, its client is deceived. -/
theorem not_answers_try {c : ι} {m : LockMode} (hc : s.inside c = none) (rc : Nat) (h : Answers s) :
    ¬ Answers (s.enter c m (Rwlock.toBool rc, s.lock.pthreadTry m c rc)) := by
  intro h'
  have htold := h'.trusted c
  rcases Nat.eq_zero_or_pos rc with rfl | hrc
  · -- told `false`, with the lock in hand
    simp [Clients.enter, Rwlock.toBool, Rwlock.pthreadTry, Rwlock.take, hc] at htold
  · -- told `true`, with nothing in hand
    have hlock : s.lock c = none := (h.trusted c).trans hc
    simp [Clients.enter, Rwlock.toBool, Rwlock.pthreadTry, hrc.ne', hlock] at htold

/-- **Step lemma.** A call keeps the answers trustworthy iff it is not a try. -/
theorem answers_step {a : LockCall ι} (h : Answers s) (hst : LockStep s a t) : Answers t ↔ a.isTry = false := by
  cases hst with
  | rdlock hc hfree => exact iff_of_true (h.take hc hfree) rfl
  | wrlock hc hfree => exact iff_of_true (h.take hc hfree) rfl
  | tryRdlock hc _ => exact iff_of_false (not_answers_try hc _ h) Bool.noConfusion
  | tryWrlock hc _ => exact iff_of_false (not_answers_try hc _ h) Bool.noConfusion
  | unlock _ => exact iff_of_true (h.unlock _) rfl

/-- **The answers can be trusted in exactly the runs without a try**, for any clients. -/
theorem answers_iff {as : List (LockCall ι)} :
    Run (Kept Answers LockStep) Clients.start as t ↔
      Run (Guarded (fun _ a => a.isTry = false) LockStep) Clients.start as t :=
  Run.kept_iff Answers Answers answers_start (fun _ _ _ h hst => answers_step h hst)
    fun _ _ _ h hst hG => (answers_step h hst).2 hG

/-- A writer that tries a free lock has it, is told it has not, and stays out: nobody unlocks. -/
theorem tryWrlock_leaks : ∃ s : Clients (Fin 2), Run LockStep Clients.start [.tryWrlock 0 0] s ∧
    s.inside 0 = none ∧ s.lock 0 = some .wr ∧ ¬ Answers s := by
  have hst : LockStep (Clients.start : Clients (Fin 2)) (.tryWrlock 0 0) _ := .tryWrlock rfl fun _ _ => rfl
  refine ⟨_, Run.single hst, rfl, rfl, fun h => ?_⟩
  exact absurd (h.trusted 0) (by decide)

end

end CtiLog
