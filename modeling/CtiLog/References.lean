import CtiLog.Neighbours
/-
# How long a reference lasts

`getLogger` returns a `Logger&`, but only the map owns the object. The reference to the instance of `file` is good
as long as nobody calls `releaseLogger(file)` and no second thread that missed `file` inserts its own instance; and
it is bad from the first of these on (`reference_alive_iff`). What is done to other files, or through the
reference itself, does not matter.
-/

namespace CtiLog

open Runs

/-- It ends the instance of `file`. -/
def RegAct.Ends (file : Str) : RegAct → Prop
  | .insert _ _ _ file' => file' = file
  | .releaseLogger _ file' => file' = file
  | _ => False

/-- The instance `i` of `file` is registered and lives. -/
structure Lasting (pf : Platform) (file : Str) (i : Nat) (r : Registry) : Prop where
  ok : r.Ok pf
  registered : r.instances file = some i
  alive : r.heap i ≠ none

section
variable {pf : Platform} {r : Registry} {file file' : Str} {i j : Nat} {l : Logger}

theorem alter_alive {f : Logger → Logger} : (r.alter j f).heap i ≠ none ↔ r.heap i ≠ none := by
  unfold Registry.alter
  by_cases h : i = j
  · subst h
    simp
  · simp [h]

theorem destroy_heap (io : FinishIO) : (r.destroy io j).heap = Function.update r.heap j none := by
  unfold Registry.destroy
  split
  · rename_i hnone
    rw [← hnone, Function.update_eq_self]
  · rfl

/-- An insertion at another file, or at this one. -/
theorem insert_alive (h : Lasting pf file i r) (io : InsertIO) (ll : LogLevel) (o : Outputs) :
    (r.insert pf io ll o file').2.heap i ≠ none ↔ file' ≠ file := by
  have hne : i ≠ r.made := (h.ok.lt i h.alive).ne
  have hmake : (r.make pf io.ctor file' o).heap i ≠ none := by simpa [Registry.make, hne] using h.alive
  unfold Registry.insert
  rw [alter_alive]
  unfold Registry.assign
  dsimp only
  cases hj : (r.make pf io.ctor file' o).instances file' with
  | none =>
    have hother : file' ≠ file := by
      rintro rfl
      have := h.registered.symm.trans hj
      cases this
    simpa [hother] using hmake
  | some old =>
    have hj' : r.instances file' = some old := hj
    dsimp only
    rw [destroy_heap]
    by_cases hf : file' = file
    · subst hf
      obtain rfl : i = old := Option.some.inj (h.registered.symm.trans hj')
      simp
    · have hold : i ≠ old := by
        rintro rfl
        exact hf (h.ok.inj hj' h.registered)
      simpa [hf, hold] using hmake

theorem release_alive (h : Lasting pf file i r) (io : FinishIO) :
    (r.releaseLogger io file').heap i ≠ none ↔ file' ≠ file := by
  unfold Registry.releaseLogger
  cases hj : r.instances file' with
  | none =>
    have hother : file' ≠ file := by
      rintro rfl
      rw [h.registered] at hj
      cases hj
    simpa [hother] using h.alive
  | some j =>
    dsimp only
    rw [destroy_heap]
    by_cases hf : file' = file
    · subst hf
      obtain rfl : i = j := Option.some.inj (h.registered.symm.trans hj)
      simp
    · have hne : i ≠ j := by
        rintro rfl
        exact hf (h.ok.inj hj h.registered)
      simpa [hf, hne] using h.alive

theorem op_alive (h : Lasting pf file i r) (a : Op) : (r.op pf file' a).heap i ≠ none := by
  unfold Registry.op
  split
  · exact h.alive
  · split
    · exact h.alive
    · rename_i j _ _ l _
      by_cases hj : i = j
      · simp [hj]
      · simpa [hj] using h.alive

/-- **Step lemma**: what ends an instance. -/
theorem regStep_alive_iff (h : Lasting pf file i r) (a : RegAct) : (a.run pf r).heap i ≠ none ↔ ¬ a.Ends file := by
  cases a with
  | found path ll o =>
    simp only [RegAct.Ends, not_false_eq_true, iff_true]
    unfold RegAct.run
    dsimp only
    split
    · exact alter_alive.2 h.alive
    · exact h.alive
  | insert io ll o file' => exact insert_alive h io ll o
  | op file' a =>
    simp only [RegAct.Ends, not_false_eq_true, iff_true]
    exact op_alive h a
  | setDefaultLogger path =>
    simp only [RegAct.Ends, not_false_eq_true, iff_true]
    unfold RegAct.run Registry.setDefaultLogger
    dsimp only
    split <;> exact h.alive
  | releaseLogger io file' => exact release_alive h io

/-- The entry of `file` stays, too. -/
theorem regStep_lasting (h : Lasting pf file i r) (a : RegAct) (hends : ¬ a.Ends file) :
    Lasting pf file i (a.run pf r) := by
  refine ⟨regStep_ok h.ok rfl, ?_, (regStep_alive_iff h a).2 hends⟩
  cases a with
  | found path ll o =>
    unfold RegAct.run
    dsimp only
    split
    · exact h.registered
    · exact h.registered
  | insert io ll o file' =>
    have hne : file ≠ file' := fun he => hends he.symm
    show (r.insert pf io ll o file').2.instances file = some i
    rw [insert_instances, Function.update_of_ne hne]
    exact h.registered
  | op file' a =>
    show (r.op pf file' a).instances file = some i
    rw [op_instances]
    exact h.registered
  | setDefaultLogger path =>
    unfold RegAct.run Registry.setDefaultLogger
    dsimp only
    split <;> exact h.registered
  | releaseLogger io file' =>
    have hne : file ≠ file' := fun he => hends he.symm
    show (r.releaseLogger io file').instances file = some i
    unfold Registry.releaseLogger
    split
    · exact h.registered
    · show Function.update r.instances file' none file = some i
      rw [Function.update_of_ne hne]
      exact h.registered

end

/-- **How long a reference lasts.** From any reachable state, the runs in which the instance of `file` lives
throughout are those in which `file` is neither released nor inserted again. -/
theorem reference_alive_iff {pf : Platform} {w : World} {as bs : List RegAct} {r r' : Registry} {file : Str} {i : Nat}
    (hreach : Run (RegStep pf) (.start w) as r) (hi : r.instances file = some i) :
    Run (Kept (fun r => r.heap i ≠ none) (RegStep pf)) r bs r' ↔
      Run (Guarded (fun _ a => ¬ a.Ends file) (RegStep pf)) r bs r' := by
  have hok := reached_ok hreach
  obtain ⟨l, hl, -⟩ := hok.owned file i hi
  apply Run.kept_iff (Lasting pf file i) _ ⟨hok, hi, by simp [hl]⟩
  · rintro r a _ h rfl
    exact regStep_alive_iff h a
  · rintro r a _ h rfl hends
    exact regStep_lasting h a hends

/-- Of the instances of `a` and `b`, that of `b` is released. -/
theorem reference_alive_iff_ab :
    let r := (neighbours (str "a") (str "b")).foldl (RegAct.run plain) (.start (oneFile []))
    let r' := RegAct.run plain r (.releaseLogger .ok (str "b"))
    Run (Kept (fun r => r.heap 0 ≠ none) (RegStep plain)) r [.releaseLogger .ok (str "b")] r' ↔
      Run (Guarded (fun _ a => ¬ a.Ends (str "a")) (RegStep plain)) r [.releaseLogger .ok (str "b")] r' := by
  intro r r'
  exact reference_alive_iff (run_acts _ (neighbours (str "a") (str "b"))) rfl

end CtiLog
