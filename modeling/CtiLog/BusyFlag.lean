import CtiLog.ReadOnce
import CtiLog.Rotation
import CtiLog.Runs
import CtiLog.ScopedFlag
/-
# One transfer at a time: `ioBusy`

Threads that transfer through one `File`. A transfer looks at `ioBusy`, which is a plain `bool`, and sets it in a
statement of its own; what it does then, up to the destructor of its guard, is one step here. Two transfers that look
before either has set it are both active, and the first one to return clears the flag of the other.

| here | there |
| --- | --- |
| `Transfer`                       | a call of `read` (file.cpp:638, :862), `traverse` (:736) or `write` (:983, :1097, :1202, :1326) |
| `Transfer.hasData`               | `if (!data)`, before the busy test of the four `write` |
| `BusyStep.turnedAway`, `pass`    | the busy test, `if (this->ioBusy)` |
| `set`, `clear`                   | `IoBusyGuard` and its destructor (file.hpp:449) |
| `body`                           | what is between them |

* `run_turnedAway` — a transfer that finds the flag set returns `Busy` and leaves everything alone.
* `one_transfer_iff` — the runs with one transfer at a time.
-/

namespace CtiLog

open Runs ScopedFlag

/-! ## Transfers -/

/-- What is behind the descriptor, as part of what the callbacks work on: bytes, a position, and what `::write` makes
of them. -/
structure Behind (σ : Type*) where
  content : σ → Str
  accept : σ → Str → σ
  pos : σ → Nat
  seek : σ → Nat → σ
  seek_pos : ∀ st, seek st (pos st) = st

/-- A call, with what its system calls come to. -/
inductive Transfer (σ : Type*) where
  | read (size : Int) (checkavail : Bool) (io : ReadOnceIO)
  | readCb (didRead : σ → Str → Bool × σ) (eachRead0 : Nat) (limit : Int) (io : ReadIO)
  | traverse (didRead : σ → Str → Bool × σ) (eachRead0 : Nat) (limit : Int) (io : TraverseIO)
  | writeAny (data : Option Bundle) (eachWrite0 limit : Int) (io : WriteIO)
  | writeRaw (data : Option Str) (eachWrite0 : Int) (io : WriteIO)
  | writeAnyCb (didWrote : DidWrote σ) (data : Option Bundle) (eachWrite0 limit : Int) (io : WriteIO)
  | writeRawCb (didWrote : DidWrote σ) (data : Option Str) (eachWrite0 limit : Int) (io : WriteIO)

namespace Transfer

variable {σ : Type*}

def hasData : Transfer σ → Bool
  | writeAny data .. | writeAnyCb _ data .. => data.isSome
  | writeRaw data .. | writeRawCb _ data .. => data.isSome
  | _ => true

/-- The call alone: the code it returns, and what it leaves. -/
def run (pf : Platform) (b : Behind σ) (f : File) (st : σ) : Transfer σ → Option Int × σ
  | read size checkavail io =>
    let r := readOnce f (b.content st) (b.pos st) size checkavail io
    (some r.ret, b.seek st r.pos)
  | readCb didRead each limit io =>
    let (o, p) := CtiLog.readCb f b.content (b.pos st) didRead each limit io st
    (o.ret, b.seek o.st p)
  | traverse didRead each limit io =>
    let o := CtiLog.traverse f pf.pageBits b.content didRead each limit io st
    (o.ret, o.st)
  | writeAny data each limit io =>
    let o := CtiLog.writeAny f b.accept data each limit io st
    (o.ret, o.st)
  | writeRaw data each io =>
    let o := CtiLog.writeRaw f b.accept data each io st
    (o.ret, o.st)
  | writeAnyCb didWrote data each limit io =>
    let o := CtiLog.writeAnyCb f b.accept didWrote data each limit io st
    (o.ret, o.st)
  | writeRawCb didWrote data each limit io =>
    let o := CtiLog.writeRawCb f b.accept didWrote data each limit io st
    (o.ret, o.st)

end Transfer

section
variable {σ : Type*} {pf : Platform} {b : Behind σ} {f : File} {st : σ}

theorem writeBundle_turnedAway {accept : σ → Str → σ} {didWrote : Option (DidWrote σ)}
    {data : Option Bundle} {each limit : Int} {io : WriteIO} (h : f.ioBusy = true ∨ data.isSome = false) :
    (writeBundle f accept didWrote data each limit io st).st = st ∧
      (data.isSome = true → (writeBundle f accept didWrote data each limit io st).ret = some (-Errno.busy.code)) := by
  unfold writeBundle
  cases data with
  | none => exact ⟨rfl, fun hdata => by cases hdata⟩
  | some d =>
    dsimp only
    rw [if_pos (h.resolve_right (by simp))]
    exact ⟨rfl, fun _ => rfl⟩

theorem writePointer_turnedAway {accept : σ → Str → σ} {didWrote : Option (DidWrote σ)}
    {data : Option Str} {each limit : Int} {io : WriteIO} (h : f.ioBusy = true ∨ data.isSome = false) :
    (writePointer f accept didWrote data each limit io st).st = st ∧
      (data.isSome = true → (writePointer f accept didWrote data each limit io st).ret = some (-Errno.busy.code)) := by
  unfold writePointer
  cases data with
  | none => exact ⟨rfl, fun hdata => by cases hdata⟩
  | some d =>
    dsimp only
    rw [if_pos (h.resolve_right (by simp))]
    exact ⟨rfl, fun _ => rfl⟩

/-- **A call that does not get past its tests** leaves everything alone, and returns `Busy` if it had data. -/
theorem run_turnedAway {c : Transfer σ} (h : f.ioBusy = true ∨ c.hasData = false) :
    (c.run pf b f st).2 = st ∧ (c.hasData = true → (c.run pf b f st).1 = some (-Errno.busy.code)) := by
  -- the reads always get to the busy test
  have hbusy : c.hasData = true → f.ioBusy = true := fun hdata => h.resolve_right (by simp [hdata])
  cases c with
  | read =>
    unfold Transfer.run readOnce
    dsimp only
    rw [if_pos (hbusy rfl)]
    exact ⟨b.seek_pos st, fun _ => rfl⟩
  | readCb =>
    unfold Transfer.run CtiLog.readCb
    dsimp only
    rw [if_pos (hbusy rfl)]
    exact ⟨b.seek_pos st, fun _ => rfl⟩
  | traverse =>
    unfold Transfer.run CtiLog.traverse
    dsimp only
    rw [if_pos (hbusy rfl)]
    exact ⟨rfl, fun _ => rfl⟩
  | writeAny | writeAnyCb => exact writeBundle_turnedAway h
  | writeRaw | writeRawCb => exact writePointer_turnedAway h

end

/-! ## Threads -/

/-- Where a thread is. `met` tells whether another call was past its busy test when this one made its own. -/
inductive BusyPhase (σ : Type*) where
  | out
  | tested (c : Transfer σ) (met : Prop)
  /-- The guard is alive, and the body to come. -/
  | guarded (c : Transfer σ) (met : Prop)
  | done (c : Transfer σ) (met : Prop) (ret : Option Int)

namespace BusyPhase

variable {σ : Type*}

def stage : BusyPhase σ → Stage
  | out => .out
  | tested _ _ => .tested
  | guarded _ _ | done _ _ _ => .inside

def met : BusyPhase σ → Prop
  | out => False
  | tested _ m | guarded _ m | done _ m _ => m

end BusyPhase

/-- A call that is over. -/
structure Returned (σ : Type*) where
  call : Transfer σ
  met : Prop
  ret : Option Int
  /-- Its body ran, or it changed what is behind the descriptor without. -/
  touched : Prop

/-- The `File`, what is behind its descriptor, and its threads. -/
structure Transferring (σ τ : Type*) where
  file : File
  st : σ
  phase : τ → BusyPhase σ
  returned : List (Returned σ)

inductive BusyAct (σ τ : Type*) where
  | call (x : τ) (c : Transfer σ)
  | set (x : τ)
  | body (x : τ)
  | clear (x : τ)

namespace Transferring

variable {σ τ : Type*}

/-- A `File` that nobody has used yet. -/
def start (f : File) (st : σ) : Transferring σ τ := ⟨{ f with ioBusy := false }, st, fun _ => .out, []⟩

/-- A call that starts now meets another one. -/
def Meets (s : Transferring σ τ) : Prop := ∃ y, (s.phase y).stage ≠ .out

/-- The flag, and who stands where. -/
def flags (s : Transferring σ τ) : State τ := ⟨s.file.ioBusy, BusyPhase.stage ∘ s.phase⟩

end Transferring

section
variable {σ τ : Type*} [DecidableEq τ]

/-- One access to `ioBusy`, or a body. The body never looks at the flag: it is what the call does with
the flag clear. -/
inductive BusyStep (pf : Platform) (b : Behind σ) (s : Transferring σ τ) : BusyAct σ τ → Transferring σ τ → Prop
  | turnedAway {x : τ} {c : Transfer σ} : s.phase x = .out → s.file.ioBusy = true ∨ c.hasData = false →
      BusyStep pf b s (.call x c)
        { s with
          st := (c.run pf b s.file s.st).2
          returned := s.returned ++ [⟨c, s.Meets, (c.run pf b s.file s.st).1, (c.run pf b s.file s.st).2 ≠ s.st⟩] }
  | pass {x : τ} {c : Transfer σ} : s.phase x = .out → s.file.ioBusy = false → c.hasData = true →
      BusyStep pf b s (.call x c) { s with phase := Function.update s.phase x (.tested c s.Meets) }
  | set {x : τ} {c : Transfer σ} {m : Prop} : s.phase x = .tested c m →
      BusyStep pf b s (.set x)
        { s with file := { s.file with ioBusy := true }, phase := Function.update s.phase x (.guarded c m) }
  | body {x : τ} {c : Transfer σ} {m : Prop} : s.phase x = .guarded c m →
      BusyStep pf b s (.body x)
        { s with
          st := (c.run pf b { s.file with ioBusy := false } s.st).2
          phase := Function.update s.phase x (.done c m (c.run pf b { s.file with ioBusy := false } s.st).1) }
  | clear {x : τ} {c : Transfer σ} {m : Prop} {ret : Option Int} : s.phase x = .done c m ret →
      BusyStep pf b s (.clear x)
        { s with
          file := { s.file with ioBusy := false }
          phase := Function.update s.phase x .out
          returned := s.returned ++ [⟨c, m, ret, True⟩] }

end

section
variable {σ τ : Type*}

/-- One call at most is between its busy test and its return, `ioBusy` tells whether a guard is alive, and a call that
met another one returned `Busy` and touched nothing. -/
structure OneTransfer (s : Transferring σ τ) : Prop where
  flags : Exclusion s.flags
  others : ∀ r ∈ s.returned, r.met → ¬ r.touched ∧ (r.call.hasData = true → r.ret = some (-Errno.busy.code))

/-- A call makes its busy test when the flag is set, or when no other call is between its test and its guard. -/
def TestsApart (s : Transferring σ τ) : BusyAct σ τ → Prop
  | .call _ c => c.hasData = true → s.file.ioBusy = true ∨ ∀ y, (s.phase y).stage ≠ .tested
  | _ => True

/-- Nobody who is past the busy test met another call there. -/
structure FirstOnly (s : Transferring σ τ) : Prop extends OneTransfer s where
  first : ∀ x, ¬ (s.phase x).met

theorem firstOnly_start (f : File) (st : σ) : FirstOnly (Transferring.start f st : Transferring σ τ) where
  flags := exclusion_start
  others := fun _ hr => by cases hr
  first := fun _ => id

variable [DecidableEq τ] {pf : Platform} {b : Behind σ} {s t : Transferring σ τ} {a : BusyAct σ τ}

/-- **Undisturbed, the steps of a call are the call.** -/
theorem undisturbed_run {x : τ} {c : Transfer σ} (hx : s.phase x = .out) (hflag : s.file.ioBusy = false)
    (hdata : c.hasData = true) :
    Run (BusyStep pf b) s [.call x c, .set x, .body x, .clear x]
      { s with
        st := (c.run pf b s.file s.st).2
        returned := s.returned ++ [⟨c, s.Meets, (c.run pf b s.file s.st).1, True⟩] } := by
  have hfile : ({ s.file with ioBusy := false } : File) = s.file := by rw [← hflag]
  have hpass := Run.single (@BusyStep.pass σ τ _ pf b s x c hx hflag hdata)
  have hset := hpass.snoc (BusyStep.set (Function.update_self ..))
  have hbody := hset.snoc (BusyStep.body (Function.update_self ..))
  have hclear := hbody.snoc (BusyStep.clear (Function.update_self ..))
  simp only [Function.update_idem, hfile] at hclear
  rwa [← hx, Function.update_eq_self] at hclear

/-! ## What a step does to the exclusion -/

/-- One thread goes on. -/
theorem flags_update (s : Transferring σ τ) (f : File) (st : σ) (x : τ) (p : BusyPhase σ) (rs : List (Returned σ)) :
    (⟨f, st, Function.update s.phase x p, rs⟩ : Transferring σ τ).flags =
      ⟨f.ioBusy, Function.update s.flags.stage x p.stage⟩ := by
  unfold Transferring.flags
  dsimp only
  rw [Function.comp_update]

/-- **A step keeps the exclusion** iff it is no busy test between the test and the guard of another call. -/
theorem busyStep_flags (h : Exclusion s.flags) (hst : BusyStep pf b s a t) : Exclusion t.flags ↔ TestsApart s a := by
  cases hst with
  | turnedAway _ haway => exact iff_of_true h fun hdata => .inl (haway.resolve_right (by simp [hdata]))
  | @pass x c hx hflag hdata =>
    have hout : s.flags.stage x = .out := congrArg BusyPhase.stage hx
    have hG : TestsApart s (.call x c) ↔ s.flags.flag = true ∨ ∀ y, s.flags.stage y ≠ .tested :=
      forall_prop_of_true hdata
    rw [flags_update]
    exact (exclusion_step h (.pass hout hflag)).trans ((forall_prop_of_true hout).trans hG.symm)
  | @set x c m hx =>
    have htested : s.flags.stage x = .tested := congrArg BusyPhase.stage hx
    rw [flags_update]
    exact iff_of_true (h.move (htested.trans_ne (by decide)) (by simp [BusyPhase.stage])) trivial
  | @body x c m hx =>
    have hinside : s.flags.stage x = .inside := congrArg BusyPhase.stage hx
    have hset : s.file.ioBusy = true := h.set x hinside
    rw [flags_update]
    exact iff_of_true (h.move (hinside.trans_ne (by decide)) (by simp [BusyPhase.stage, hset])) trivial
  | @clear x c m ret hx =>
    have hinside : s.flags.stage x = .inside := congrArg BusyPhase.stage hx
    rw [flags_update]
    exact iff_of_true (h.move (hinside.trans_ne (by decide)) (by simp [BusyPhase.stage])) trivial

/-- Who met another call was turned away. -/
theorem busyStep_others (h : FirstOnly s) (hst : BusyStep pf b s a t) :
    ∀ r ∈ t.returned, r.met → ¬ r.touched ∧ (r.call.hasData = true → r.ret = some (-Errno.busy.code)) := by
  intro r hr hmet
  cases hst with
  | turnedAway _ haway =>
    rcases List.mem_append.1 hr with hr | hr
    · exact h.others r hr hmet
    · obtain rfl := List.mem_singleton.1 hr
      obtain ⟨hst, hret⟩ := run_turnedAway haway
      exact ⟨not_not.2 hst, hret⟩
  | @clear x c m ret hx =>
    rcases List.mem_append.1 hr with hr | hr
    · exact h.others r hr hmet
    · obtain rfl := List.mem_singleton.1 hr
      have hfirst := h.first x
      rw [hx] at hfirst
      exact absurd hmet hfirst
  | pass | set | body => exact h.others r hr hmet

theorem first_update {x : τ} {p : BusyPhase σ} (h : ∀ y, ¬ (s.phase y).met) (hp : ¬ p.met) (y : τ) :
    ¬ (Function.update s.phase x p y).met := by
  by_cases hyx : y = x
  · subst hyx
    rwa [Function.update_self]
  · rw [Function.update_of_ne hyx]
    exact h y

/-- **Step lemma.** -/
theorem busyStep_first (h : FirstOnly s) (hst : BusyStep pf b s a t) (hG : TestsApart s a) : FirstOnly t := by
  have hone : OneTransfer t := ⟨(busyStep_flags h.flags hst).2 hG, busyStep_others h hst⟩
  refine ⟨hone, ?_⟩
  cases hst with
  | turnedAway => exact h.first
  | pass _ hflag hdata =>
    -- the flag is clear and nobody is at his test: everybody is out
    have htested := (hG hdata).resolve_left (by simp [hflag])
    have hout := h.flags.all_out hflag htested
    exact first_update h.first fun ⟨y, hy⟩ => hy (hout y)
  | @set x c m hx | @body x c m hx =>
    have hfirst := h.first x
    rw [hx] at hfirst
    exact first_update h.first hfirst
  | clear => exact first_update h.first id

/-- **One transfer at a time**, in exactly the runs in which no call makes its busy test between the test and the guard
of another, for any threads and transfers. -/
theorem one_transfer_iff (pf : Platform) (b : Behind σ) (f : File) (st : σ) {as : List (BusyAct σ τ)} :
    Run (Kept OneTransfer (BusyStep pf b)) (.start f st) as t ↔
      Run (Guarded TestsApart (BusyStep pf b)) (.start f st) as t := by
  refine Run.kept_iff FirstOnly OneTransfer (firstOnly_start f st) (fun u a v h hst => ?_)
    fun u a v h hst hG => busyStep_first h hst hG
  constructor
  · exact fun hone => (busyStep_flags h.flags hst).1 hone.flags
  · exact fun hG => (busyStep_first h hst hG).toOneTransfer

end

/-! ## Two threads -/

/-- A log: bytes, written at their end. -/
def logBytes : Behind Str := ⟨id, fun st bytes => st ++ bytes, List.length, fun st _ => st, fun _ => rfl⟩

def helloWrite : Transfer Str := .writeRaw (some (str "hello")) 0 ⟨fun _ => openA.view, fun _ => .ok 5⟩

/-- **Two transfers at a time**: both threads test, both set the flag and write, and one returns. -/
theorem two_transfers : ∃ s : Transferring Str (Fin 2),
    Run (BusyStep plain logBytes) (.start openA [])
        [.call 0 helloWrite, .call 1 helloWrite, .set 0, .set 1, .body 0, .body 1, .clear 0] s ∧
      (s.phase 1).stage = .inside ∧ s.file.ioBusy = false ∧ ¬ OneTransfer s := by
  have htest := Run.single (@BusyStep.pass Str (Fin 2) _ plain logBytes (.start openA []) 0 helloWrite rfl rfl rfl)
  have htests := htest.snoc (@BusyStep.pass Str (Fin 2) _ plain logBytes _ 1 helloWrite rfl rfl rfl)
  have hset := htests.snoc (@BusyStep.set Str (Fin 2) _ plain logBytes _ 0 helloWrite _ rfl)
  have hsets := hset.snoc (@BusyStep.set Str (Fin 2) _ plain logBytes _ 1 helloWrite _ rfl)
  have hbody := hsets.snoc (@BusyStep.body Str (Fin 2) _ plain logBytes _ 0 helloWrite _ rfl)
  have hbodies := hbody.snoc (@BusyStep.body Str (Fin 2) _ plain logBytes _ 1 helloWrite _ rfl)
  have hclear := hbodies.snoc (@BusyStep.clear Str (Fin 2) _ plain logBytes _ 0 helloWrite _ _ rfl)
  refine ⟨_, hclear, rfl, rfl, fun h => ?_⟩
  exact Bool.noConfusion (h.flags.set 1 rfl)

end CtiLog
