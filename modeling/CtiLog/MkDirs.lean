import CtiLog.Rotation
import CtiLog.Walk
/-
# What the result of `MkDirs` says

`MkDirs` walks the prefixes of a path and makes a directory of each that `IsExists` calls missing. It asks whether
something is there, not whether it is a directory, and an error of `stat` is an answer like any other: a regular file,
and everything behind it, or an entry that cannot be looked at, is passed over, and the result is still 0.

* `Faults` — what `stat` and `mkdir` of each entry fail with; the walk to an entry fails by itself.
* `mkDirWays` — the loop over the ways to the prefixes; `mkDirsWith_eq` — `MkDirs` is that loop.
* `mkDirWays_zero_iff`, `mkDirWays_ready_iff` — when it gets to its end, and what is there then.
* `MeansResult` — what the claim of the result is; `mkDirs_means_iff` — when it is true.
-/

namespace CtiLog

/-- What `stat` and `mkdir` of an entry fail with, if they do. -/
structure Faults where
  stat : Name → Option Nat
  mkdir : Name → Option Nat

/-- A path that ends with a slash names no regular file. -/
def slashFault (w : World) (d : Str) (n : Name) : Option Nat :=
  match (w.fs n).node with
  | some (.regular _) => if d.getLast? = some slash then some ENOTDIR else none
  | _ => none

/-- What the calls of one turn fail with: the walk to the prefix, or the entry it ends at. -/
def Faults.turn (F : Faults) (pf : Platform) (d : Str) (w : World) : DirIO :=
  match w.walk (base pf d) (components d) with
  | .error e => ⟨some e, some e⟩
  | .ok n => ⟨(F.stat n).or (slashFault w d n), F.mkdir n⟩

/-- One turn of the loop of `MkDirs`. -/
def mkDirsTurn (pf : Platform) (io : DirIO) (d : Str) (w : World) : Option Nat × World :=
  if isExists w (resolve pf d) io.stat = 0 then w.mkdir (resolve pf d) io.mkdir else (none, w)

/-- The outcomes of the turns over these prefixes, each in the state that the turns before it have left. -/
def Faults.turns (F : Faults) (pf : Platform) : List Str → World → List DirIO
  | [], _ => []
  | d :: ds, w => F.turn pf d w :: F.turns pf ds (mkDirsTurn pf (F.turn pf d w) d w).2

/-- The outcomes of the call `MkDirs(path)`. -/
def Faults.io (F : Faults) (pf : Platform) (path : Str) (w : World) (i : Nat) : DirIO :=
  (F.turns pf (slashPrefixes (withSlash path)) w).getD i ⟨none, none⟩

/-- `-errno`, or `-EPERM` where it is 0. -/
def mkdirCode (e : Nat) : Int := if e = 0 then -EPERM else -e

theorem mkdirCode_neg (e : Nat) : mkdirCode e < 0 := by
  unfold mkdirCode EPERM
  split <;> omega

/-- `MkDirs(char const*)`. -/
def mkDirsPtr (pf : Platform) (path : Option Str) (io : Nat → DirIO) (w : World) : Int × World :=
  match path with
  | none => (-EINVAL, w)
  | some p => mkDirs pf p io w

/-- The call of `MkDirs(path)` that `F` makes of it. -/
def mkDirsWith (pf : Platform) (F : Faults) (path : Str) (w : World) : Int × World := mkDirs pf path (F.io pf path w) w

/-- The path names an existing directory. -/
def NamesDirectory (pf : Platform) (path : Str) (w : World) : Prop :=
  ∃ n, w.walk (base pf path) (components path) = .ok n ∧ (w.fs n).node = some .directory

/-- A turn of the loop over `ds`, from turn `i` on, found the state `r.2`, and its `mkdir` failed with the `errno` in
`r.1`. -/
def FailsAt (pf : Platform) (io : Nat → DirIO) (i : Nat) (ds : List Str) (w : World) (r : Int × World) : Prop :=
  ∃ k d e, ds[k]? = some d ∧ mkDirsLoop pf io i (ds.take k) w = (0, r.2) ∧
    (r.2.mkdir (resolve pf d) (io (i + k)).mkdir).1 = some e ∧ r.1 = mkdirCode e

/-- The result `r.1` is what became of the path in `r.2`. -/
structure MeansResult (pf : Platform) (F : Faults) (path : Str) (w : World) (r : Int × World) : Prop where
  /-- Nothing changes but for new directories at the prefixes. -/
  adds : ∀ m, r.2.fs m = w.fs m ∨ m ∈ dirNames pf path ∧ (w.fs m).node = none ∧ r.2.fs m = (w.fs m).makeDir
  rest : r.2.idx = w.idx ∧ r.2.files = w.files ∧ r.2.calls = w.calls
  done : r.1 = 0 → NamesDirectory pf path r.2
  failed : r.1 < 0 → path = [] ∧ r.1 = -EINVAL ∨
    FailsAt pf (F.io pf path w) 0 (slashPrefixes (withSlash path)) w r
  again : r.1 = 0 → mkDirsWith pf F path r.2 = (0, r.2)

/-! ## The loop over the ways -/

/-- `IsExists` answers 0 of an entry. -/
def CalledMissing (F : Faults) (w : World) (n : Name) : Prop :=
  F.stat n = some ENOENT ∨ F.stat n = none ∧ (w.fs n).node = none

instance (F : Faults) (w : World) (n : Name) : Decidable (CalledMissing F w n) :=
  inferInstanceAs (Decidable (_ ∨ _ ∧ _))

/-- One turn, along the way from `b` to an entry. -/
def mkDirTurn (F : Faults) (b : Name) (way : List Str) (w : World) : Option Nat × World :=
  match w.walk b way with
  | .error e => if e = ENOENT then (some e, w) else (none, w)
  | .ok n => if CalledMissing F w n then w.mkdir n (F.mkdir n) else (none, w)

def mkDirWays (F : Faults) (b : Name) : List (List Str) → World → Int × World
  | [], w => (0, w)
  | way :: ways, w =>
    match mkDirTurn F b way w with
    | (some e, w) => (mkdirCode e, w)
    | (none, w) => mkDirWays F b ways w

/-- The ways to the prefixes of a path, in turn. -/
def ways (path : Str) : List (List Str) := (slashPrefixes (withSlash path)).map components

section
variable {pf : Platform} {F : Faults} {w : World} {n : Name} {path : Str}

theorem isExists_zero_iff {fail : Option Nat} :
    isExists w n fail = 0 ↔ fail = some ENOENT ∨ fail = none ∧ (w.fs n).node = none := by
  unfold isExists getFileSize World.stat
  cases fail with
  | some e =>
    by_cases he : e = 0
    · subst he
      simp [ENOENT]
    · have hneg : ¬ (0 : Int) ≤ -e := by omega
      simp only [he, if_false, hneg, Option.some.injEq, reduceCtorEq, false_and, or_false]
      split <;> omega
  | none =>
    cases (w.fs n).node with
    | none => simp [ENOENT]
    | some nd => cases nd <;> simp

/-- A slash too many hides no missing entry. -/
theorem calledMissing_slash (d : Str) : (F.stat n).or (slashFault w d n) = some ENOENT ∨
    (F.stat n).or (slashFault w d n) = none ∧ (w.fs n).node = none ↔ CalledMissing F w n := by
  unfold CalledMissing slashFault
  cases F.stat n with
  | some e => simp
  | none =>
    cases (w.fs n).node with
    | none => simp
    | some nd =>
      cases nd with
      | directory => simp
      | regular g => simp [ENOTDIR, ENOENT]

/-- A turn of the loop is the turn along the way to its prefix. -/
theorem mkDirsTurn_eq (pf : Platform) (F : Faults) (d : Str) (w : World) :
    mkDirsTurn pf (F.turn pf d w) d w = mkDirTurn F (base pf d) (components d) w := by
  unfold mkDirsTurn Faults.turn mkDirTurn
  cases hwalk : w.walk (base pf d) (components d) with
  | error e =>
    simp only [isExists_zero_iff, Option.some.injEq, reduceCtorEq, false_and, or_false]
    rfl
  | ok n =>
    have hn : resolve pf d = n := (resolve_eq pf d).trans (walk_ok_iff.1 hwalk).2.symm
    simp only [isExists_zero_iff, hn, calledMissing_slash]

theorem mkDirsLoop_cons (io : Nat → DirIO) (i : Nat) (d : Str) (ds : List Str) (w : World) :
    mkDirsLoop pf io i (d :: ds) w =
      match mkDirsTurn pf (io i) d w with
      | (some e, w) => (mkdirCode e, w)
      | (none, w) => mkDirsLoop pf io (i + 1) ds w := by
  rw [mkDirsLoop, mkDirsTurn]
  split <;> rfl

theorem mkDirsLoop_eq {b : Name} {io : Nat → DirIO} (ds : List Str) (i : Nat) (w : World)
    (hbase : ∀ d ∈ ds, base pf d = b)
    (hio : ∀ j, io (i + j) = (F.turns pf ds w).getD j ⟨none, none⟩) :
    mkDirsLoop pf io i ds w = mkDirWays F b (ds.map components) w := by
  induction ds generalizing i w with
  | nil => rfl
  | cons d ds ih =>
    have hhead : io i = F.turn pf d w := hio 0
    have hturn : mkDirsTurn pf (F.turn pf d w) d w = mkDirTurn F b (components d) w := by
      rw [mkDirsTurn_eq, hbase d List.mem_cons_self]
    have htail : ∀ j, io (i + 1 + j) = (F.turns pf ds (mkDirTurn F b (components d) w).2).getD j ⟨none, none⟩ := by
      intro j
      rw [← hturn, Nat.add_assoc, Nat.add_comm 1 j]
      exact hio (j + 1)
    rw [mkDirsLoop_cons, hhead, hturn, List.map_cons, mkDirWays]
    generalize mkDirTurn F b (components d) w = r at htail ⊢
    obtain ⟨e, w'⟩ := r
    cases e with
    | some e => rfl
    | none => exact ih (i + 1) w' (fun d hd => hbase d (List.mem_cons_of_mem _ hd)) htail

/-- **`MkDirs` is the loop** over the ways to its prefixes. -/
theorem mkDirsWith_eq (hpath : path ≠ []) (w : World) :
    mkDirsWith pf F path w = mkDirWays F (base pf path) (ways path) w := by
  unfold mkDirsWith mkDirs
  rw [if_neg hpath]
  exact mkDirsLoop_eq _ 0 w (fun d hd => base_prefix pf hd) fun j => by rw [Nat.zero_add]; rfl

/-! ### One turn -/

/-- A turn fails on its way, finds it blocked, is refused, finds something, or makes a directory. -/
inductive MkDirTurn (F : Faults) (b : Name) (way : List Str) (w : World) : Option Nat × World → Prop
  | lost : w.walk b way = .error ENOENT → MkDirTurn F b way w (some ENOENT, w)
  | blocked {e : Nat} : w.walk b way = .error e → e ≠ ENOENT → MkDirTurn F b way w (none, w)
  | refused {n : Name} {e : Nat} : w.walk b way = .ok n → CalledMissing F w n →
      ¬ (F.mkdir n = none ∧ (w.fs n).node = none) → MkDirTurn F b way w (some e, w)
  | present {n : Name} : w.walk b way = .ok n → ¬ CalledMissing F w n → MkDirTurn F b way w (none, w)
  | made {n : Name} : w.walk b way = .ok n → CalledMissing F w n → F.mkdir n = none → (w.fs n).node = none →
      MkDirTurn F b way w (none, w.setCell n (w.fs n).makeDir)

theorem mkDirTurn_cases (F : Faults) (b : Name) (way : List Str) (w : World) :
    MkDirTurn F b way w (mkDirTurn F b way w) := by
  unfold mkDirTurn
  cases hwalk : w.walk b way with
  | error e =>
    by_cases he : e = ENOENT
    · subst he
      exact .lost hwalk
    · simp only [if_neg he]
      exact .blocked hwalk he
  | ok n =>
    by_cases hm : CalledMissing F w n
    · simp only [if_pos hm]
      unfold World.mkdir
      cases hf : F.mkdir n with
      | some e => exact .refused hwalk hm (by simp [hf])
      | none =>
        cases hn : (w.fs n).node with
        | some nd => exact .refused hwalk hm (by simp [hn])
        | none => exact .made hwalk hm hf hn
    · simp only [if_neg hm]
      exact .present hwalk hm

/-! ### What the loop leaves -/

/-- The entry is a directory when its turn is over. -/
def Ready (F : Faults) (w : World) (n : Name) : Prop :=
  (w.fs n).node = some .directory ∨ CalledMissing F w n ∧ F.mkdir n = none ∧ (w.fs n).node = none

theorem ready_made {m : Name} (hmiss : CalledMissing F w n) (hmk : F.mkdir n = none) (hnode : (w.fs n).node = none) :
    Ready F (w.setCell n (w.fs n).makeDir) m ↔ Ready F w m := by
  by_cases hmn : m = n
  · subst hmn
    exact iff_of_true (.inl (by simp)) (.inr ⟨hmiss, hmk, hnode⟩)
  · simp only [Ready, CalledMissing, w.setCell_other _ hmn]

variable {b : Name}

/-- A directory stays one. -/
theorem mkDirWays_keeps (ws : List (List Str)) (w : World) (h : (w.fs n).node = some .directory) :
    ((mkDirWays F b ws w).2.fs n).node = some .directory := by
  induction ws generalizing w with
  | nil => exact h
  | cons way ws ih =>
    have hturn := mkDirTurn_cases F b way w
    rw [mkDirWays]
    generalize mkDirTurn F b way w = r at hturn ⊢
    cases hturn with
    | lost | refused => exact h
    | blocked | present => exact ih w h
    | @made m _ _ _ hnode =>
      have hmn : n ≠ m := by
        rintro rfl
        rw [h] at hnode
        cases hnode
      refine ih _ ?_
      rwa [w.setCell_other _ hmn]

/-- Only what is ready is a directory in the end. -/
theorem ready_of_directory (ws : List (List Str)) (w : World)
    (h : ((mkDirWays F b ws w).2.fs n).node = some .directory) :
    Ready F w n := by
  induction ws generalizing w with
  | nil => exact .inl h
  | cons way ws ih =>
    have hturn := mkDirTurn_cases F b way w
    rw [mkDirWays] at h
    generalize mkDirTurn F b way w = r at hturn h
    cases hturn with
    | lost | refused => exact .inl h
    | blocked | present => exact ih w h
    | made _ hmiss hmk hnode => exact (ready_made hmiss hmk hnode).1 (ih _ h)

/-! ### How far the loop gets -/

/-- The ways ahead, seen from `w`: each goes through directories or through the ways before it, each leads on to the
next, and the last is the goal. -/
structure Ladder (w : World) (b : Name) (goal : List Str) (ws : List (List Str)) : Prop where
  steps : ∀ before way after, ws = before ++ way :: after → ∀ p, p <+: way → p ≠ way →
    p ∈ before ∨ (w.fs (p.foldl enter b)).node = some .directory
  chain : ws.Pairwise (· <+: ·)
  below : ∀ way ∈ ws, way <+: goal
  last : ws ≠ [] → goal ∈ ws

variable {goal way : List Str} {ws : List (List Str)}

theorem Ladder.head_open (h : Ladder w b goal (way :: ws)) : Passable w b way := fun p hp hne =>
  (h.steps [] way ws rfl p hp hne).resolve_left List.not_mem_nil

/-- Where a turn has left a directory, the ways ahead go on from it. -/
theorem Ladder.tail {w' : World} (h : Ladder w b goal (way :: ws))
    (hkeep : ∀ m, (w.fs m).node = some .directory → (w'.fs m).node = some .directory)
    (hdir : (w'.fs (way.foldl enter b)).node = some .directory) : Ladder w' b goal ws where
  steps before next after hws p hp hne := by
    rcases h.steps (way :: before) next after (by rw [hws, List.cons_append]) p hp hne with hmem | hnode
    · rcases List.mem_cons.1 hmem with rfl | hmem
      · exact .inr hdir
      · exact .inl hmem
    · exact .inr (hkeep _ hnode)
  chain := (List.pairwise_cons.1 h.chain).2
  below next hnext := h.below next (List.mem_cons_of_mem _ hnext)
  last hne := by
    rcases List.mem_cons.1 (h.last (List.cons_ne_nil _ _)) with hgoal | hgoal
    · obtain ⟨next, rest, rfl⟩ := List.exists_cons_of_ne_nil hne
      have hle : goal <+: next := hgoal ▸ (List.pairwise_cons.1 h.chain).1 next List.mem_cons_self
      have hge : next <+: goal := h.below next (List.mem_cons_of_mem _ List.mem_cons_self)
      rw [hle.eq_of_length_le hge.length_le]
      exact List.mem_cons_self
    · exact hgoal

/-- The turn of an entry is refused: `mkdir` fails on it, or finds something there, which a `stat` that says `ENOENT`
each time makes it do from the second turn on. -/
def Refused (F : Faults) (before : List Name) (w : World) (n : Name) : Prop :=
  CalledMissing F w n ∧ (F.mkdir n ≠ none ∨ (w.fs n).node ≠ none ∨ F.stat n = some ENOENT ∧ n ∈ before)

/-- Nothing is there, and `stat` fails of itself: it is not made, and the next way is lost. -/
def Hidden (F : Faults) (w : World) (n : Name) : Prop := (w.fs n).node = none ∧ ¬ CalledMissing F w n

/-- The loop ends with an error at one of the ways. -/
def GivesUp (F : Faults) (b : Name) (goal : List Str) (ws : List (List Str)) (w : World) : Prop :=
  ∃ before way after, ws = before ++ way :: after ∧ (∀ p ∈ before, Ready F w (p.foldl enter b)) ∧
    (Refused F (before.map (List.foldl enter b)) w (way.foldl enter b) ∨ Hidden F w (way.foldl enter b) ∧ way ≠ goal)

/-- A turn behind something that is no directory. -/
theorem mkDirTurn_behind {next : List Str} (hopen : Passable w b way)
    (hnode : (w.fs (way.foldl enter b)).node ≠ some .directory)
    (hpres : ¬ CalledMissing F w (way.foldl enter b)) (hnext : way <+: next) :
    mkDirTurn F b next w =
      if next ≠ way ∧ (w.fs (way.foldl enter b)).node = none then (some ENOENT, w) else (none, w) := by
  obtain ⟨rest, rfl⟩ := hnext
  by_cases hrest : rest = []
  · subst hrest
    rw [List.append_nil, mkDirTurn, walk_of_open hopen, if_neg fun h => h.1 rfl]
    exact if_neg hpres
  · have hne : way ++ rest ≠ way := fun h => hrest (by simpa using h)
    rw [mkDirTurn, walk_blocked hopen hrest hnode]
    by_cases hnone : (w.fs (way.foldl enter b)).node = none
    · simp [hne, hnone]
    · simp [hnone, ENOTDIR, ENOENT]

/-- Behind a regular file every turn passes by. -/
theorem mkDirWays_regular {g : Nat} (hopen : Passable w b way)
    (hnode : (w.fs (way.foldl enter b)).node = some (.regular g))
    (hpres : ¬ CalledMissing F w (way.foldl enter b)) (hws : ∀ next ∈ ws, way <+: next) :
    mkDirWays F b ws w = (0, w) := by
  induction ws with
  | nil => rfl
  | cons next ws ih =>
    rw [mkDirWays, mkDirTurn_behind hopen (by simp [hnode]) hpres (hws next List.mem_cons_self),
      if_neg (by simp [hnode])]
    exact ih fun next' hnext => hws next' (List.mem_cons_of_mem _ hnext)

/-- Behind nothing the first turn that goes on is lost. -/
theorem mkDirWays_hidden (hopen : Passable w b way) (hhid : Hidden F w (way.foldl enter b))
    (hws : ∀ next ∈ ws, way <+: next) :
    (mkDirWays F b ws w).1 = 0 ↔ ∀ next ∈ ws, next = way := by
  induction ws with
  | nil => exact iff_of_true rfl fun _ h => absurd h List.not_mem_nil
  | cons next ws ih =>
    have hnode : (w.fs (way.foldl enter b)).node ≠ some .directory := by simp [hhid.1]
    rw [mkDirWays, mkDirTurn_behind hopen hnode hhid.2 (hws next List.mem_cons_self), List.forall_mem_cons]
    by_cases hnext : next = way
    · rw [if_neg fun h => h.1 hnext, and_iff_right hnext]
      exact ih fun next' hnext' => hws next' (List.mem_cons_of_mem _ hnext')
    · rw [if_pos ⟨hnext, hhid.1⟩]
      exact iff_of_false (mkdirCode_neg ENOENT).ne fun h => hnext h.1

/-- Giving up later, seen from before a turn that leaves a directory. -/
theorem givesUp_cons_iff {w' : World} (hready : Ready F w (way.foldl enter b))
    (hrefused : ¬ Refused F [] w (way.foldl enter b))
    (hR : ∀ m, Ready F w' m ↔ Ready F w m) (hH : ∀ m, Hidden F w' m ↔ Hidden F w m)
    (hF : ∀ before m, Refused F before w' m ↔ Refused F (way.foldl enter b :: before) w m) :
    GivesUp F b goal (way :: ws) w ↔ GivesUp F b goal ws w' := by
  constructor
  · rintro ⟨before, next, after, hws, hbefore, hstop⟩
    cases before with
    | nil =>
      obtain ⟨rfl, rfl⟩ := List.cons.inj hws
      rcases hstop with hstop | ⟨hhid, -⟩
      · exact absurd hstop hrefused
      · rcases hready with hdir | ⟨hmiss, -⟩
        · exact absurd hhid.1 (by simp [hdir])
        · exact absurd hmiss hhid.2
    | cons p before =>
      obtain ⟨rfl, rfl⟩ := List.cons.inj hws
      refine ⟨before, next, after, rfl, fun q hq => (hR _).2 (hbefore q (List.mem_cons_of_mem _ hq)), ?_⟩
      exact hstop.imp (hF _ _).2 (And.imp_left (hH _).2)
  · rintro ⟨before, next, after, rfl, hbefore, hstop⟩
    refine ⟨way :: before, next, after, rfl, ?_, ?_⟩
    · exact List.forall_mem_cons.2 ⟨hready, fun q hq => (hR _).1 (hbefore q hq)⟩
    · exact hstop.imp (hF _ _).1 (And.imp_left (hH _).1)

/-- Once the directory is made, only a `stat` that says `ENOENT` all the same has its entry refused. -/
theorem refused_made {m : Name} {before : List Name} (hmiss : CalledMissing F w n) (hmk : F.mkdir n = none)
    (hnode : (w.fs n).node = none) :
    Refused F before (w.setCell n (w.fs n).makeDir) m ↔ Refused F (n :: before) w m := by
  unfold Refused
  by_cases hmn : m = n
  · subst hmn
    have hmiss' : CalledMissing F (w.setCell m (w.fs m).makeDir) m ↔ F.stat m = some ENOENT := by simp [CalledMissing]
    simp [hmiss', hmiss, hmk, hnode]
  · simp [CalledMissing, w.setCell_other _ hmn, hmn]

theorem hidden_made {m : Name} (hmiss : CalledMissing F w n) :
    Hidden F (w.setCell n (w.fs n).makeDir) m ↔ Hidden F w m := by
  by_cases hmn : m = n
  · subst hmn
    exact iff_of_false (fun h => by simpa using h.1) fun h => h.2 hmiss
  · simp only [Hidden, CalledMissing, w.setCell_other _ hmn]

/-- Giving up, seen from a turn that leaves no directory. -/
theorem givesUp_stuck_iff (hready : ¬ Ready F w (way.foldl enter b)) (hrefused : ¬ Refused F [] w (way.foldl enter b)) :
    GivesUp F b goal (way :: ws) w ↔ Hidden F w (way.foldl enter b) ∧ way ≠ goal := by
  constructor
  · rintro ⟨before, next, after, hws, hbefore, hstop⟩
    cases before with
    | nil =>
      obtain ⟨rfl, rfl⟩ := List.cons.inj hws
      exact hstop.resolve_left hrefused
    | cons p before =>
      obtain ⟨rfl, rfl⟩ := List.cons.inj hws
      exact absurd (hbefore way List.mem_cons_self) hready
  · exact fun h => ⟨[], way, ws, rfl, fun _ hp => absurd hp List.not_mem_nil, .inr h⟩

/-- There is a way on unless this is the goal. -/
theorem Ladder.forall_eq_iff (h : Ladder w b goal (way :: ws)) : (∀ next ∈ ws, next = way) ↔ way = goal := by
  constructor
  · intro hall
    rcases List.mem_cons.1 (h.last (List.cons_ne_nil _ _)) with hgoal | hgoal
    · exact hgoal.symm
    · exact (hall goal hgoal).symm
  · rintro rfl next hnext
    have hle : way <+: next := (List.pairwise_cons.1 h.chain).1 next hnext
    exact (h.below next (List.mem_cons_of_mem _ hnext)).eq_of_length_le hle.length_le

/-- **The loop gets to its end** iff it gives up at no way. -/
theorem mkDirWays_zero_iff (hl : Ladder w b goal ws) : (mkDirWays F b ws w).1 = 0 ↔ ¬ GivesUp F b goal ws w := by
  induction ws generalizing w with
  | nil => exact iff_of_true rfl fun ⟨before, way, after, hws, _⟩ => by simp at hws
  | cons way ws ih =>
    have hopen := hl.head_open
    have hwalk := walk_of_open hopen
    have hchain := (List.pairwise_cons.1 hl.chain).1
    have hturn := mkDirTurn_cases F b way w
    rw [mkDirWays]
    generalize mkDirTurn F b way w = r at hturn ⊢
    cases hturn with
    | lost h => rw [hwalk] at h; cases h
    | blocked h => rw [hwalk] at h; cases h
    | @refused n e h hmiss hfail =>
      rw [hwalk] at h
      cases h
      have hrefused : Refused F [] w (way.foldl enter b) := ⟨hmiss, by tauto⟩
      refine iff_of_false (mkdirCode_neg e).ne (not_not.2 ⟨[], way, ws, rfl, ?_, .inl hrefused⟩)
      exact fun _ hp => absurd hp List.not_mem_nil
    | @made n h hmiss hmk hnode =>
      rw [hwalk] at h
      cases h
      have hrefused : ¬ Refused F [] w (way.foldl enter b) := by
        rintro ⟨-, hf⟩
        simp [hmk, hnode] at hf
      rw [givesUp_cons_iff (.inr ⟨hmiss, hmk, hnode⟩) hrefused (fun m => ready_made hmiss hmk hnode)
        (fun m => hidden_made hmiss) fun _ m => refused_made hmiss hmk hnode]
      refine ih (hl.tail (fun m hm => ?_) (by simp))
      by_cases hmn : m = way.foldl enter b
      · simp [hmn]
      · rwa [w.setCell_other _ hmn]
    | @present n h hmiss =>
      rw [hwalk] at h
      cases h
      dsimp only
      cases hnode : (w.fs (way.foldl enter b)).node with
      | none =>
        have hhid : Hidden F w (way.foldl enter b) := ⟨hnode, hmiss⟩
        have hready : ¬ Ready F w (way.foldl enter b) := by simp [Ready, hnode, hmiss]
        rw [mkDirWays_hidden hopen hhid hchain, hl.forall_eq_iff, givesUp_stuck_iff hready fun h => hmiss h.1]
        simp [hhid]
      | some nd =>
        cases nd with
        | directory =>
          have hrefused : ∀ before m, Refused F before w m ↔ Refused F (way.foldl enter b :: before) w m := by
            intro before m
            by_cases hm : m = way.foldl enter b
            · subst hm
              exact iff_of_false (fun h => hmiss h.1) fun h => hmiss h.1
            · simp [Refused, hm]
          rw [givesUp_cons_iff (.inl hnode) (fun h => hmiss h.1) (fun m => Iff.rfl) (fun m => Iff.rfl) hrefused]
          exact ih (hl.tail (fun m hm => hm) hnode)
        | regular g =>
          rw [mkDirWays_regular hopen hnode hmiss hchain]
          refine iff_of_true rfl ?_
          rw [givesUp_stuck_iff (by simp [Ready, hnode]) fun h => hmiss h.1]
          exact fun h => by simpa [hnode] using h.1.1

/-- Where the loop gets to its end, what was ready is a directory. -/
theorem mkDirWays_directories (hl : Ladder w b goal ws) (hready : ∀ way ∈ ws, Ready F w (way.foldl enter b))
    (hret : (mkDirWays F b ws w).1 = 0) {way : List Str} (hway : way ∈ ws) :
    ((mkDirWays F b ws w).2.fs (way.foldl enter b)).node = some .directory := by
  induction ws generalizing w with
  | nil => exact absurd hway List.not_mem_nil
  | cons next ws ih =>
    have hwalk := walk_of_open hl.head_open
    have hturn := mkDirTurn_cases F b next w
    rw [List.forall_mem_cons] at hready
    rw [mkDirWays] at hret ⊢
    generalize mkDirTurn F b next w = r at hturn hret ⊢
    cases hturn with
    | lost h => rw [hwalk] at h; cases h
    | blocked h => rw [hwalk] at h; cases h
    | refused => exact absurd hret (mkdirCode_neg _).ne
    | @present n h hmiss =>
      rw [hwalk] at h
      cases h
      have hdir := hready.1.resolve_right fun h => hmiss h.1
      rcases List.mem_cons.1 hway with rfl | hway
      · exact mkDirWays_keeps ws w hdir
      · exact ih (hl.tail (fun m hm => hm) hdir) hready.2 hret hway
    | @made n h hmiss hmk hnode =>
      rw [hwalk] at h
      cases h
      rcases List.mem_cons.1 hway with rfl | hway
      · exact mkDirWays_keeps ws _ (by simp)
      · refine ih (hl.tail (fun m hm => ?_) (by simp)) (fun p hp => (ready_made hmiss hmk hnode).2 (hready.2 p hp)) hret
          hway
        by_cases hmn : m = next.foldl enter b
        · simp [hmn]
        · rwa [w.setCell_other _ hmn]

/-- Over directories the loop changes nothing iff no `stat` says `ENOENT`. -/
theorem mkDirWays_again_iff (hdirs : ∀ way ∈ ws, Passable w b way ∧ (w.fs (way.foldl enter b)).node = some .directory) :
    mkDirWays F b ws w = (0, w) ↔ ∀ way ∈ ws, F.stat (way.foldl enter b) ≠ some ENOENT := by
  induction ws with
  | nil => exact iff_of_true rfl fun _ h => absurd h List.not_mem_nil
  | cons way ws ih =>
    rw [List.forall_mem_cons] at hdirs ⊢
    obtain ⟨⟨hopen, hdir⟩, hdirs⟩ := hdirs
    have hmiss : CalledMissing F w (way.foldl enter b) ↔ F.stat (way.foldl enter b) = some ENOENT := by
      simp [CalledMissing, hdir]
    rw [mkDirWays, mkDirTurn, walk_of_open hopen]
    dsimp only
    by_cases hstat : F.stat (way.foldl enter b) = some ENOENT
    · rw [if_pos (hmiss.2 hstat)]
      refine iff_of_false (fun h => ?_) fun h => h.1 hstat
      unfold World.mkdir at h
      cases hf : F.mkdir (way.foldl enter b) with
      | some e =>
        rw [hf] at h
        exact (mkdirCode_neg e).ne (congrArg Prod.fst h)
      | none =>
        rw [hf, hdir] at h
        exact (mkdirCode_neg EEXIST).ne (congrArg Prod.fst h)
    · rw [if_neg (mt hmiss.1 hstat), and_iff_right hstat]
      exact ih hdirs

end

/-! ## The result -/

section
variable {pf : Platform} {F : Faults} {path : Str} {w : World}

/-- The path is among its prefixes, unless it is the root. -/
theorem goal_mem_ways (path : Str) : components path ∈ ways path ∨ ways path = [] ∧ components path = [] := by
  obtain ⟨q, hq⟩ : ∃ q, withSlash path = q ++ [slash] := by
    unfold withSlash
    split
    · rename_i h
      exact ⟨path.dropLast, (List.dropLast_append_getLast? _ h).symm⟩
    · exact ⟨path, rfl⟩
  rw [ways, ← components_withSlash path, hq, components_slash]
  by_cases hq0 : q = []
  · rw [hq0]
    exact .inr ⟨rfl, rfl⟩
  · exact .inl (List.mem_map_of_mem (mem_slashPrefixes.2 ⟨hq0, List.prefix_rfl⟩))

theorem ways_prefix {way : List Str} (hway : way ∈ ways path) : way <+: components path := by
  obtain ⟨d, hd, rfl⟩ := List.mem_map.1 hway
  rw [← components_withSlash path]
  exact components_prefix hd

/-- The ways to the prefixes of a path are a ladder to the path. -/
theorem ladder_ways (hbase : (w.fs (base pf path)).node = some .directory) :
    Ladder w (base pf path) (components path) (ways path) where
  steps before way after hws p hp hne := by
    by_cases h0 : p = []
    · rw [h0]
      exact .inr hbase
    · obtain ⟨ds, rest, hds, rfl, hrest⟩ := List.map_eq_append_iff.1 hws
      obtain ⟨d, after', rfl, rfl, rfl⟩ := List.map_eq_cons_iff.1 hrest
      obtain ⟨q, hq, hqp⟩ := exists_before hds hp hne h0
      exact .inl (hqp ▸ List.mem_map_of_mem hq)
  chain := List.pairwise_map.2 (slashPrefixes_chain _)
  below _ hway := ways_prefix hway
  last hne := (goal_mem_ways path).resolve_right fun h => hne h.1

theorem dirNames_eq (pf : Platform) (path : Str) :
    dirNames pf path = (ways path).map (List.foldl enter (base pf path)) := by
  rw [dirNames, ways, List.map_map]
  refine List.map_congr_left fun d hd => ?_
  rw [resolve_eq, base_prefix pf hd]
  rfl

/-- A path that names a directory goes through directories. -/
theorem NamesDirectory.ways_open (h : NamesDirectory pf path w) {way : List Str} (hway : way ∈ ways path) :
    Passable w (base pf path) way ∧ (w.fs (way.foldl enter (base pf path))).node = some .directory := by
  obtain ⟨n, hwalk, hnode⟩ := h
  obtain ⟨hopen, rfl⟩ := walk_ok_iff.1 hwalk
  have hle := ways_prefix hway
  refine ⟨fun p hp hne => hopen p (hp.trans hle) ?_, ?_⟩
  · rintro rfl
    exact hne (hp.eq_of_length_le hle.length_le)
  · by_cases hgoal : way = components path
    · rwa [hgoal]
    · exact hopen way hle hgoal

/-- Where the loop gets to its end, the path names a directory iff every entry on the way was ready. -/
theorem namesDirectory_iff (hbase : (w.fs (base pf path)).node = some .directory)
    (hret : (mkDirWays F (base pf path) (ways path) w).1 = 0) :
    NamesDirectory pf path (mkDirWays F (base pf path) (ways path) w).2 ↔ ∀ n ∈ dirNames pf path, Ready F w n := by
  have hl : Ladder w (base pf path) (components path) (ways path) := ladder_ways hbase
  rw [dirNames_eq, List.forall_mem_map]
  constructor
  · exact fun h way hway => ready_of_directory (ways path) w (h.ways_open hway).2
  · intro hready
    have hdirs : ∀ way ∈ ways path,
        ((mkDirWays F (base pf path) (ways path) w).2.fs (way.foldl enter (base pf path))).node =
        some .directory := fun way hway => mkDirWays_directories hl hready hret hway
    rcases goal_mem_ways path with hgoal | ⟨hnil, hgoal⟩
    · refine ⟨_, walk_of_open fun p hp hne => ?_, hdirs _ hgoal⟩
      obtain ⟨before, after, hsplit⟩ := List.append_of_mem hgoal
      rcases hl.steps before _ after hsplit p hp hne with hmem | hdir
      · exact hdirs p (by rw [hsplit]; exact List.mem_append_left _ hmem)
      · exact mkDirWays_keeps _ w hdir
    · rw [NamesDirectory, hnil, hgoal]
      exact ⟨_, rfl, hbase⟩

/-- `mkdir` fails and leaves everything, or makes a directory where there was nothing. -/
theorem mkdir_cases (w : World) (n : Name) (fail : Option Nat) :
    (∃ e, w.mkdir n fail = (some e, w)) ∨
      (w.fs n).node = none ∧ w.mkdir n fail = (none, w.setCell n (w.fs n).makeDir) := by
  unfold World.mkdir
  cases fail with
  | some e => exact .inl ⟨e, rfl⟩
  | none =>
    cases (w.fs n).node with
    | some nd => exact .inl ⟨EEXIST, rfl⟩
    | none => exact .inr ⟨rfl, rfl⟩

/-- A loop that ends with an error ends in the turn that failed. -/
theorem mkDirsLoop_failed {io : Nat → DirIO} (ds : List Str) (i : Nat) (w : World)
    (h : (mkDirsLoop pf io i ds w).1 ≠ 0) :
    FailsAt pf io i ds w (mkDirsLoop pf io i ds w) := by
  induction ds generalizing i w with
  | nil => exact absurd rfl h
  | cons d ds ih =>
    -- the turn that fails is one place later than in the rest of the loop
    have hlater : ∀ w', (∀ ds, mkDirsLoop pf io i (d :: ds) w = mkDirsLoop pf io (i + 1) ds w') →
        FailsAt pf io i (d :: ds) w (mkDirsLoop pf io i (d :: ds) w) := by
      intro w' hloop
      rw [hloop] at h ⊢
      obtain ⟨k, d', e, hd, hk, he, hret⟩ := ih (i + 1) w' h
      refine ⟨k + 1, d', e, hd, ?_, ?_, hret⟩
      · rw [List.take_succ_cons, hloop, hk]
      · rw [← Nat.add_assoc, Nat.add_right_comm]
        exact he
    by_cases h0 : isExists w (resolve pf d) (io i).stat = 0
    · rcases mkdir_cases w (resolve pf d) (io i).mkdir with ⟨e, he⟩ | ⟨-, he⟩
      · have hloop : mkDirsLoop pf io i (d :: ds) w = (mkdirCode e, w) := by
          rw [mkDirsLoop, if_pos h0, he]
          rfl
        rw [hloop]
        exact ⟨0, d, e, rfl, rfl, by rw [Nat.add_zero, he], rfl⟩
      · refine hlater (w.setCell (resolve pf d) (w.fs (resolve pf d)).makeDir) fun ds => ?_
        rw [mkDirsLoop, if_pos h0, he]
    · refine hlater w fun ds => ?_
      rw [mkDirsLoop, if_neg h0]

theorem mkDirsWith_adds (m : Name) : (mkDirsWith pf F path w).2.fs m = w.fs m ∨
    m ∈ dirNames pf path ∧ (w.fs m).node = none ∧ (mkDirsWith pf F path w).2.fs m = (w.fs m).makeDir := by
  refine mkDirs_rule pf path _ (fun w' => w'.fs m = w.fs m ∨
    m ∈ dirNames pf path ∧ (w.fs m).node = none ∧ w'.fs m = (w.fs m).makeDir) ?_ w (.inl rfl)
  intro w' n fail hn hw
  rcases mkdir_cases w' n fail with ⟨e, he⟩ | ⟨hnode, he⟩
  · rw [he]
    exact hw
  · rw [he]
    by_cases hmn : m = n
    · subst hmn
      right
      rcases hw with hw | ⟨-, -, hw⟩
      · rw [hw] at hnode
        exact ⟨hn, hnode, by rw [World.setCell_same, hw]⟩
      · rw [hw] at hnode
        cases hnode
    · rwa [World.setCell_other _ _ hmn]

theorem mkDirsWith_failed (h : (mkDirsWith pf F path w).1 < 0) :
    path = [] ∧ (mkDirsWith pf F path w).1 = -(EINVAL : Int) ∨
    FailsAt pf (F.io pf path w) 0 (slashPrefixes (withSlash path)) w (mkDirsWith pf F path w) := by
  unfold mkDirsWith mkDirs at h ⊢
  by_cases hpath : path = []
  · rw [if_pos hpath]
    exact .inl ⟨hpath, rfl⟩
  · rw [if_neg hpath] at h ⊢
    exact .inr (mkDirsLoop_failed _ 0 w h.ne)

/-- **The result means what it says** when the path is empty, the loop gives up with an error, or every entry on the
way is a directory or is made one, and no `stat` says `ENOENT` of an entry that is there. The directory that the path
starts from is one. -/
theorem mkDirs_means_iff (pf : Platform) (F : Faults) (path : Str) (w : World) (io : Nat → DirIO)
    (hbase : (w.fs (base pf path)).node = some .directory) :
    mkDirsPtr pf none io w = (-(EINVAL : Int), w) ∧
    (MeansResult pf F path w (mkDirsWith pf F path w) ↔
      path = [] ∨ GivesUp F (base pf path) (components path) (ways path) w ∨
        (∀ n ∈ dirNames pf path, Ready F w n) ∧ ∀ n ∈ dirNames pf path, F.stat n ≠ some ENOENT) := by
  refine ⟨rfl, ?_⟩
  have hiff : MeansResult pf F path w (mkDirsWith pf F path w) ↔
      ((mkDirsWith pf F path w).1 = 0 → NamesDirectory pf path (mkDirsWith pf F path w).2) ∧
        ((mkDirsWith pf F path w).1 = 0 →
          mkDirsWith pf F path (mkDirsWith pf F path w).2 = (0, (mkDirsWith pf F path w).2)) :=
    ⟨fun h => ⟨h.done, h.again⟩, fun h => ⟨mkDirsWith_adds, mkDirs_rest pf path _ w, h.1, mkDirsWith_failed, h.2⟩⟩
  rw [hiff]
  by_cases hpath : path = []
  · have hret : (mkDirsWith pf F path w).1 ≠ 0 := by
      unfold mkDirsWith mkDirs
      rw [if_pos hpath]
      show -(EINVAL : Int) ≠ 0
      decide
    exact iff_of_true ⟨fun h => absurd h hret, fun h => absurd h hret⟩ (.inl hpath)
  rw [mkDirsWith_eq hpath, mkDirsWith_eq hpath]
  have hl : Ladder w (base pf path) (components path) (ways path) := ladder_ways hbase
  have hzero := mkDirWays_zero_iff (F := F) hl
  by_cases hgives : GivesUp F (base pf path) (components path) (ways path) w
  · have hret : (mkDirWays F (base pf path) (ways path) w).1 ≠ 0 := fun h => hzero.1 h hgives
    exact iff_of_true ⟨fun h => absurd h hret, fun h => absurd h hret⟩ (.inr (.inl hgives))
  · have hret := hzero.2 hgives
    simp only [hret, forall_const, hpath, hgives, false_or]
    rw [namesDirectory_iff hbase hret]
    refine and_congr_right fun hready => ?_
    have hdone := (namesDirectory_iff hbase hret).2 hready
    rw [mkDirWays_again_iff fun way hway => hdone.ways_open hway, dirNames_eq, List.forall_mem_map]

end

def Faults.none : Faults := ⟨fun _ => .none, fun _ => .none⟩

/-- Nothing under the root but a file `a`: `b/c` can be made, `a/../b` cannot. -/
theorem mkDirs_means_iff_a :
    MeansResult plain .none (str "b/c") (oneFile []) (mkDirsWith plain .none (str "b/c") (oneFile [])) ∧
      ¬ MeansResult plain .none (str "a/../b") (oneFile []) (mkDirsWith plain .none (str "a/../b") (oneFile [])) := by
  have hiff := fun path => (mkDirs_means_iff plain .none (str path) (oneFile []) (fun _ => ⟨.none, .none⟩))
  refine ⟨(hiff "b/c" rfl).2.2 (.inr (.inr ⟨?_, ?_⟩)), ?_⟩
  · have hnames : dirNames plain (str "b/c") = [[str "b"], [str "b", str "c"]] := by decide
    rw [hnames, List.forall_mem_cons, List.forall_mem_singleton]
    exact ⟨.inr ⟨.inr ⟨rfl, by decide⟩, rfl, by decide⟩, .inr ⟨.inr ⟨rfl, by decide⟩, rfl, by decide⟩⟩
  · exact fun n _ => nofun
  · have hways : ways (str "a/../b") = [[str "a"], [str "a", str ".."], [str "a", str "..", str "b"]] := by decide
    have hnode : ((oneFile []).fs [str "a"]).node = some (.regular 0) := by decide
    have hpres : ¬ CalledMissing .none (oneFile []) [str "a"] := by decide
    have hready : ¬ Ready .none (oneFile []) [str "a"] := by
      rintro (h | ⟨h, -⟩)
      · rw [hnode] at h
        cases h
      · exact hpres h
    rw [(hiff "a/../b" rfl).2, hways]
    rintro (h | h | ⟨h, -⟩)
    · exact absurd h (by decide)
    · have hstuck := (@givesUp_stuck_iff _ _ _ _ [str "a"] _ hready fun h => hpres h.1).1 h
      obtain ⟨hhid, -⟩ := hstuck
      exact absurd (hnode.symm.trans hhid.1) nofun
    · exact hready (h [str "a"] (by decide))

/-- `MkDirs("a")` where `a` is a regular file: 0, and no directory. -/
theorem file_is_no_directory :
    (mkDirsWith plain .none (str "a") (oneFile [])).1 = 0 ∧
      ¬ NamesDirectory plain (str "a") (mkDirsWith plain .none (str "a") (oneFile [])).2 ∧
      ¬ MeansResult plain .none (str "a") (oneFile []) (mkDirsWith plain .none (str "a") (oneFile [])) := by
  have hret : (mkDirsWith plain .none (str "a") (oneFile [])).1 = 0 := by decide
  have hnode : ((mkDirsWith plain .none (str "a") (oneFile [])).2.fs [str "a"]).node = some (.regular 0) := by decide
  have hno : ¬ NamesDirectory plain (str "a") (mkDirsWith plain .none (str "a") (oneFile [])).2 := by
    rintro ⟨n, hwalk, hdir⟩
    have hn : n = [str "a"] := (walk_ok_iff.1 hwalk).2
    rw [hn, hnode] at hdir
    cases hdir
  exact ⟨hret, hno, fun h => hno (h.done hret)⟩

end CtiLog
