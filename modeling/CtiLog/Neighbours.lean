import CtiLog.Registry
/-
# Loggers and each other's files

An operation on a registered logger leaves the log of every other one alone (`other_log_kept`), with
two exceptions, both its own doing: the backup `path + ".1"`, which a rotation removes and makes
anew, and the directories `MkDirs` makes on the way to `path` (`other_log_changed`).
-/

namespace CtiLog

open Rotating Runs

/-! ## Runs of the registry -/

namespace Registry

/-- An operation on the instance of `file`. -/
def op (pf : Platform) (file : Str) (a : Op) (r : Registry) : Registry :=
  match r.instances file with
  | none => r
  | some i =>
    match r.heap i with
    | none => r
    | some l => { r with heap := Function.update r.heap i (some (a.run pf l r.world).1), world := (a.run pf l r.world).2 }

end Registry

/-- What threads do to the registry, section by section. -/
inductive RegAct where
  | found (path : Str) (spinOnceLogLevel : LogLevel) (outputs : Outputs)
  | insert (io : InsertIO) (spinOnceLogLevel : LogLevel) (outputs : Outputs) (file : Str)
  | op (file : Str) (a : Op)
  | setDefaultLogger (path : Str)
  | releaseLogger (io : FinishIO) (file : Str)

def RegAct.run (pf : Platform) (r : Registry) : RegAct → Registry
  | .found path ll o =>
    match r.hasLogger (r.fileOf path) with
    | some i => r.alter i (Logger.request ll o)
    | none => r
  | .insert io ll o file => (r.insert pf io ll o file).2
  | .op file a => r.op pf file a
  | .setDefaultLogger path => r.setDefaultLogger path
  | .releaseLogger io file => r.releaseLogger io file

def RegStep (pf : Platform) (r : Registry) (a : RegAct) (r' : Registry) : Prop := a.run pf r = r'

section
variable {pf : Platform} {r : Registry} {w : World}

theorem op_instances (file : Str) (a : Op) : (r.op pf file a).instances = r.instances := by
  unfold Registry.op
  split
  · rfl
  · split <;> rfl

section
variable {file : Str} {i : Nat} {l : Logger} (a : Op) (hi : r.instances file = some i) (hl : r.heap i = some l)
include hi hl

theorem op_world : (r.op pf file a).world = (a.run pf l r.world).2 := by
  simp [Registry.op, hi, hl]

theorem op_heap : (r.op pf file a).heap i = some (a.run pf l r.world).1 := by
  simp [Registry.op, hi, hl]

theorem op_heap_other {j : Nat} (hj : j ≠ i) : (r.op pf file a).heap j = r.heap j := by
  simp [Registry.op, hi, hl, hj]

end

theorem Registry.Ok.op (h : r.Ok pf) (file : Str) (a : Op) : (r.op pf file a).Ok pf := by
  unfold Registry.op
  split
  · exact h
  · rename_i i hi
    split
    · exact h
    · rename_i l hl
      constructor
      · intro file' j hj
        obtain ⟨l', hl', hp, hn⟩ := h.owned file' j hj
        by_cases hij : j = i
        · subst hij
          obtain rfl : l = l' := by
            rw [hl] at hl'
            exact Option.some.inj hl'
          have hacts := op_acts pf a l r.world
          exact ⟨_, by simp, (acts_path hacts).trans hp, acts_named hacts hn⟩
        · exact ⟨l', by simp [hij, hl'], hp, hn⟩
      · intro j hj
        apply h.lt j
        intro hnone
        apply hj
        have hij : j ≠ i := by
          rintro rfl
          rw [hl] at hnone
          cases hnone
        simp [hij, hnone]

theorem Registry.Ok.release (h : r.Ok pf) (io : FinishIO) (file : Str) : (r.releaseLogger io file).Ok pf := by
  unfold Registry.releaseLogger
  split
  · exact h
  · rename_i i hi
    obtain ⟨l, hl, -, -⟩ := h.owned file i hi
    unfold Registry.destroy
    rw [hl]
    constructor
    · intro file' j hj
      have hf : file' ≠ file := by
        rintro rfl
        simp at hj
      have hj' : r.instances file' = some j := by simpa [hf] using hj
      have hij : j ≠ i := fun he => hf (h.inj hj' (he ▸ hi))
      obtain ⟨l', hl', hp, hn⟩ := h.owned file' j hj'
      exact ⟨l', by simp [hij, hl'], hp, hn⟩
    · intro j hj
      apply h.lt j
      intro hnone
      apply hj
      by_cases hij : j = i
      · simp [hij]
      · simp [hij, hnone]

/-- **Step lemma**: map and objects stay together. -/
theorem regStep_ok {r' : Registry} {a : RegAct} (h : r.Ok pf) (hstep : RegStep pf r a r') : r'.Ok pf := by
  subst hstep
  cases a with
  | found path ll o =>
    unfold RegAct.run
    dsimp only
    split
    · exact h.alter fun l hn => ⟨request_path ll o l, request_named ll o hn⟩
    · exact h
  | insert io ll o file => exact h.insert io ll o file
  | op file a => exact h.op file a
  | setDefaultLogger path =>
    unfold RegAct.run Registry.setDefaultLogger
    dsimp only
    split
    · exact h
    · exact ⟨h.owned, h.lt⟩
  | releaseLogger io file => exact h.release io file

theorem run_acts (r : Registry) (as : List RegAct) : Run (RegStep pf) r as (as.foldl (RegAct.run pf) r) := by
  induction as using List.reverseRecOn with
  | nil => exact .nil
  | append_singleton as a ih =>
    apply ih.snoc
    rw [List.foldl_append]
    rfl

theorem reached_ok {as : List RegAct} (hrun : Run (RegStep pf) (.start w) as r) : r.Ok pf :=
  hrun.inv _ (start_ok w) fun _ _ _ => regStep_ok

end

/-! ## The frame -/

/-- The log of the object `j` for `q`: its entry, and what its stream buffers. -/
def logOf (pf : Platform) (r : Registry) (q : Str) (j : Nat) : Cell × Option Logger :=
  (r.world.fs (resolve pf q), r.heap j)

/-- **Loggers do not touch each other's files**: in every reachable state, an operation on the logger for
`p` leaves the logger for `q` and its log alone, if `q` names neither the log of `p` nor its backup, nor a
missing directory on the way to `p`. -/
theorem other_log_kept {pf : Platform} {w : World} {as : List RegAct} {r : Registry}
    (hrun : Run (RegStep pf) (.start w) as r) {p q : Str} {i j : Nat} (hp : r.instances p = some i)
    (hq : r.instances q = some j) (hlog : resolve pf q ≠ resolve pf p) (hbackup : resolve pf q ≠ resolve pf (p ++ dot1))
    (hdirs : resolve pf q ∉ dirNames pf (dirname p) ∨ (r.world.fs (resolve pf q)).node ≠ none) (a : Op) :
    logOf pf (r.op pf p a) q j = logOf pf r q j := by
  have hok := reached_ok hrun
  obtain ⟨l, hl, rfl, hnamed⟩ := hok.owned p i hp
  have hij : j ≠ i := fun he => hlog (by rw [hok.inj hq (he ▸ hp)])
  have hframe := acts_frame (op_acts pf a l r.world) hnamed ⟨hlog, hbackup⟩ hdirs
  rw [logOf, logOf, op_world a hp hl, op_heap_other a hp hl hij, hframe]

/-! ## The exceptions -/

/-- As `other_log_kept`, without a word on backups and directories. -/
def NeverTouched (w : World) : Prop :=
  ∀ as r, Run (RegStep plain) (.start w) as r → ∀ p q i j, r.instances p = some i → r.instances q = some j → p ≠ q →
    resolve plain q ≠ resolve plain p → ∀ a, logOf plain (r.op plain p a) q j = logOf plain r q j

/-- A logger for `p`, then one for `q`. -/
def neighbours (p q : Str) : List RegAct := [.insert .ok .unchange .file p, .insert .ok .unchange .file q]

/-- The log of `a` and that of `b`, when `a` is rotated. -/
theorem other_log_kept_ab :
    let r := (neighbours (str "a") (str "b")).foldl (RegAct.run plain) (.start (oneFile []))
    logOf plain (r.op plain (str "a") (.shrinkToFit .ok)) (str "b") 1 = logOf plain r (str "b") 1 := by
  intro r
  exact @other_log_kept plain _ _ r (run_acts _ (neighbours (str "a") (str "b"))) (str "a") (str "b") 0 1 rfl rfl
    (by decide)
    (by decide) (.inl (by decide)) (.shrinkToFit .ok)

/-- The directory of `d/a` is made at the path of `d`. -/
theorem directory_made : ¬ NeverTouched (oneFile []) := by
  intro h
  have hrun := @run_acts plain (.start (oneFile [])) (neighbours (str "d/a") (str "d"))
  have hsame := h _ _ hrun (str "d/a") (str "d") 0 1 rfl rfl (by decide) (by decide) (.reset false .ok)
  have hnode := congrArg (fun c : Cell × Option Logger => c.1.node) hsame
  exact absurd hnode (by decide)

/-- With `a` of the smallest `maxSize`. -/
def neighboursA : List RegAct := neighbours (str "a") (str "a.1") ++ [.op (str "a") (.setMaxSize 8192)]

/-- The backup of `a` is the log of `a.1`. -/
theorem backup_made : ¬ NeverTouched (oneFile (List.replicate 5000 0)) := by
  have hlen : (List.replicate 5000 (0 : UInt8)).length = 5000 := List.length_replicate
  generalize List.replicate 5000 (0 : UInt8) = bs at *
  intro h
  -- `a` is opened
  let r := neighboursA.foldl (RegAct.run plain) (.start (oneFile bs))
  let r' := r.op plain (str "a") (.reset false .ok)
  have hopen : RegStep plain r (.op (str "a") (.reset false .ok)) r' := rfl
  have hrun : Run (RegStep plain) (.start (oneFile bs)) _ r' := (run_acts _ neighboursA).snoc hopen
  have hreset : (Op.reset false .ok).run plain freshA r.world = (openedA, openedWorld bs) := by
    show (freshA.reset plain false .ok (oneFile bs)).2 = _
    rw [reset_freshA]
    rfl
  have hl : r'.heap 0 = some openedA := by
    rw [op_heap (i := 0) (l := freshA) _ rfl rfl, hreset]
  have hw : r'.world = openedWorld bs := by
    rw [op_world (i := 0) (l := freshA) _ rfl rfl, hreset]
  have hinst : r'.instances = r.instances := op_instances _ _
  have hp : r'.instances (str "a") = some 0 := hinst ▸ rfl
  have hq : r'.instances (str "a.1") = some 1 := hinst ▸ rfl
  have hsame := h _ _ hrun (str "a") (str "a.1") 0 1 hp hq (by decide) (by decide) (.shrinkToFit .ok)
  -- the rotation copies the log to `a.1`
  obtain ⟨s, w', hr, -, htape, -⟩ := shrinkToFit_tape ShrinkIO.ok_ok (by decide) (openedA_open bs)
  have hlong : openedA.maxSize.bytes / 2 < (openedA.tape plain (openedWorld bs)).disk.length := by
    rw [openedA_tape, hlen]
    decide
  rw [Tape.fit_of_lt _ _ hlong, openedA_tape] at htape
  have hnew : w'.content (openedA.name1 plain) = bs := by
    apply (congrArg Tape.backup htape).trans
    show (bs ++ []).take openedA.maxSize.bytes = bs
    rw [List.append_nil, List.take_of_length_le (by rw [hlen]; decide)]
  have hold : (openedWorld bs).content (openedA.name1 plain) = [] := congrArg Tape.backup (openedA_tape bs)
  have hcell := congrArg (fun c : Cell × Option Logger => c.1.content) hsame
  dsimp only [logOf] at hcell
  rw [op_world _ hp hl, hw, Op.run, hr] at hcell
  have hempty : bs = [] := hnew.symm.trans (Eq.trans hcell hold)
  rw [hempty] at hlen
  cases hlen

/-- **What a logger may do to another one's log**: rotate onto it, or make a directory of its path. -/
theorem other_log_changed :
    ¬ NeverTouched (oneFile (List.replicate 5000 0)) ∧ ¬ NeverTouched (oneFile []) :=
  ⟨backup_made, directory_made⟩

end CtiLog
