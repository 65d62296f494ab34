import Mathlib.Tactic
/-
# Exclusion by a flag that is tested, and then set

Parties share one flag. A party tests it, and is turned away if it is set; if it is not, the party sets it in a step of
its own, and clears it on its way out. Nothing here knows what the parties do inside.

* `State`, `Step` — the flag and where each party stands; the label of a step is the party that takes it.
* `Exclusion` — one party at most is past its test, and the flag tells whether one is inside.
* `Apart` — no test between the test and the set of another party, unless the flag turns it away.
* `exclusion_step` — the steps that keep the exclusion are those that are `Apart`.
-/

namespace ScopedFlag

inductive Stage where
  | out
  /-- Past the test, before the set. -/
  | tested
  | inside
deriving DecidableEq, Repr

structure State (ι : Type*) where
  flag : Bool
  stage : ι → Stage

section
variable {ι : Type*}

def State.start : State ι := ⟨false, fun _ => .out⟩

inductive Step [DecidableEq ι] (s : State ι) : ι → State ι → Prop
  | pass {x : ι} : s.stage x = .out → s.flag = false → Step s x ⟨s.flag, Function.update s.stage x .tested⟩
  | turned {x : ι} : s.stage x = .out → s.flag = true → Step s x s
  | set {x : ι} : s.stage x = .tested → Step s x ⟨true, Function.update s.stage x .inside⟩
  | clear {x : ι} : s.stage x = .inside → Step s x ⟨false, Function.update s.stage x .out⟩

structure Exclusion (s : State ι) : Prop where
  alone : ∀ x y, s.stage x ≠ .out → s.stage y ≠ .out → x = y
  set : ∀ x, s.stage x = .inside → s.flag = true
  clear : (∀ x, s.stage x ≠ .inside) → s.flag = false

def Apart (s : State ι) (x : ι) : Prop := s.stage x = .out → s.flag = true ∨ ∀ y, s.stage y ≠ .tested

theorem exclusion_start : Exclusion (State.start : State ι) where
  alone := fun _ _ h => absurd rfl h
  set := fun _ h => by cases h
  clear := fun _ => rfl

variable {s t : State ι} {x : ι}

/-- With the flag clear and nobody between test and set, everybody is out. -/
theorem Exclusion.all_out (h : Exclusion s) (hflag : s.flag = false) (htested : ∀ y, s.stage y ≠ .tested) (y : ι) :
    s.stage y = .out := by
  cases hy : s.stage y with
  | out => rfl
  | tested => exact absurd hy (htested y)
  | inside =>
    have hset := h.set y hy
    rw [hflag] at hset
    cases hset

variable [DecidableEq ι]

/-- Where everybody else is out, a party may stand anywhere, with the flag set if it is inside. -/
theorem Exclusion.only {k : Stage} {flag : Bool} (hother : ∀ y, y ≠ x → s.stage y = .out)
    (hflag : flag = true ↔ k = .inside) : Exclusion ⟨flag, Function.update s.stage x k⟩ := by
  have honly : ∀ y, Function.update s.stage x k y ≠ .out → y = x := fun y hy => by
    by_contra hne
    rw [Function.update_of_ne hne] at hy
    exact hy (hother y hne)
  have hself : Function.update s.stage x k x = k := Function.update_self ..
  refine ⟨fun y z hy hz => (honly y hy).trans (honly z hz).symm, fun y hy => ?_, fun hnone => ?_⟩
  · dsimp only at hy
    obtain rfl := honly y (by rw [hy]; decide)
    exact hflag.2 (hself.symm.trans hy)
  · exact Bool.eq_false_iff.2 fun hset => hnone x (hself.trans (hflag.1 hset))

/-- A party past its test goes on, and stays the only one. -/
theorem Exclusion.move (h : Exclusion s) {k : Stage} {flag : Bool} (hx : s.stage x ≠ .out)
    (hflag : flag = true ↔ k = .inside) : Exclusion ⟨flag, Function.update s.stage x k⟩ := by
  refine .only (fun y hne => ?_) hflag
  by_contra hy
  exact hne (h.alone y x hy hx)

/-- **Step lemma.** A step keeps the exclusion iff it is no test between another's test and set. -/
theorem exclusion_step (h : Exclusion s) (hst : Step s x t) : Exclusion t ↔ Apart s x := by
  cases hst with
  | pass hx hflag =>
    constructor
    · intro ht _
      right
      intro y hy
      have hne : y ≠ x := by
        rintro rfl
        rw [hx] at hy
        cases hy
      -- both would be past their tests
      have hy' : Function.update s.stage x .tested y = .tested := (Function.update_of_ne hne ..).trans hy
      have hx' : Function.update s.stage x .tested x = .tested := Function.update_self ..
      exact hne (ht.alone y x (hy'.trans_ne (by decide)) (hx'.trans_ne (by decide)))
    · intro hG
      have htested := (hG hx).resolve_left (by simp [hflag])
      exact .only (fun y _ => h.all_out hflag htested y) (by simp [hflag])
  | turned _ hflag => exact iff_of_true h fun _ => .inl hflag
  | set hx =>
    refine iff_of_true (h.move (by simp [hx]) (by simp)) fun hout => ?_
    rw [hx] at hout
    cases hout
  | clear hx =>
    refine iff_of_true (h.move (by simp [hx]) (by simp)) fun hout => ?_
    rw [hx] at hout
    cases hout

end

end ScopedFlag
