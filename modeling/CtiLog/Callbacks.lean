import CtiLog.Notices
import CtiLog.Runs
/-
# Callbacks among threads

`tryDoAcCb` copies the callback, then looks into the filters under their lock, and calls the copy when the lock is
released. Other threads change both meanwhile: a filter is one section (log.cpp:452-481), the callback has no lock.

| here | there |
| --- | --- |
| `addAcNameFilter`, `removeAcNameFilter`, `clearAcNameFilters`, `hasAcNameFilter` | log.cpp:452-481 |
| `HearAct.setAppendCallback` | log.hpp:345 |
| `HearAct.look`, `.check`, `.call` | `tryDoAcCb` (log.cpp:428): `auto const ac = …`, the section, `ac(…)` |

* `filters_newest` — whom the filters let through, from the history of their changes.
* `call_timely_iff` — when a call comes late: the callback has been replaced, or the name removed.
-/

namespace CtiLog

open Runs

namespace Logger

def hasAcNameFilter (acNameFilter : Str) (l : Logger) : Bool := l.acNameFilters.contains acNameFilter

/-- The set has each name once. -/
def addAcNameFilter (acNameFilter : Str) (l : Logger) : Bool × Logger :=
  if l.hasAcNameFilter acNameFilter then (false, l)
  else (true, { l with acNameFilters := acNameFilter :: l.acNameFilters })

def removeAcNameFilter (acNameFilter : Str) (l : Logger) : Bool × Logger :=
  if !l.hasAcNameFilter acNameFilter then (false, l)
  else (true, { l with acNameFilters := l.acNameFilters.filter (· ≠ acNameFilter) })

def clearAcNameFilters (l : Logger) : Logger := if l.acNameFilters ≠ [] then { l with acNameFilters := [] } else l

theorem mem_addAcNameFilter {f n : Str} {l : Logger} :
    n ∈ (l.addAcNameFilter f).2.acNameFilters ↔ n = f ∨ n ∈ l.acNameFilters := by
  unfold addAcNameFilter hasAcNameFilter
  split
  · rename_i h
    refine ⟨.inr, fun hn => hn.elim (fun hf => ?_) id⟩
    rw [hf]
    simpa using h
  · exact List.mem_cons

theorem mem_removeAcNameFilter {f n : Str} {l : Logger} :
    n ∈ (l.removeAcNameFilter f).2.acNameFilters ↔ n ≠ f ∧ n ∈ l.acNameFilters := by
  unfold removeAcNameFilter hasAcNameFilter
  split
  · rename_i h
    refine ⟨fun hn => ⟨fun hf => ?_, hn⟩, fun hn => hn.2⟩
    simp [← hf, hn] at h
  · simp [and_comm]

theorem clearAcNameFilters_eq (l : Logger) : l.clearAcNameFilters = { l with acNameFilters := [] } := by
  unfold clearAcNameFilters
  split
  · rfl
  · rename_i h
    rw [← not_not.1 h]

end Logger

/-- A thread in `tryDoAcCb`, with its copy of the callback. -/
inductive Hearing (γ : Type*) where
  | idle
  | looked (ac : γ) (n : Notice)
  | passed (ac : γ) (n : Notice)

/-- The callback set, the threads in `tryDoAcCb`, and the calls so far. `logger.appendCallback` says whether
one is set. -/
structure Hears (κ γ : Type*) where
  logger : Logger
  callback : Option γ
  thread : κ → Hearing γ
  called : List (γ × Notice)

inductive HearAct (κ γ : Type*) where
  | setAppendCallback (ac : Option γ)
  | addAcNameFilter (f : Str)
  | removeAcNameFilter (f : Str)
  | clearAcNameFilters
  | look (k : κ) (n : Notice)
  | check (k : κ)
  | call (k : κ)

variable {κ γ : Type*} [DecidableEq κ]

namespace Hears

def start (l : Logger) (ac : Option γ) : Hears κ γ :=
  ⟨{ l with appendCallback := ac.isSome }, ac, fun _ => .idle, []⟩

def move (k : κ) (h : Hearing γ) (t : Hears κ γ) : Hears κ γ := { t with thread := Function.update t.thread k h }

@[simp] theorem move_self (k : κ) (h : Hearing γ) (t : Hears κ γ) : (t.move k h).thread k = h := Function.update_self ..

@[simp] theorem move_other {j k : κ} (hj : j ≠ k) (h : Hearing γ) (t : Hears κ γ) : (t.move k h).thread j = t.thread j :=
  Function.update_of_ne hj ..

def act (t : Hears κ γ) : HearAct κ γ → Hears κ γ
  | .setAppendCallback ac => { t with logger := { t.logger with appendCallback := ac.isSome }, callback := ac }
  | .addAcNameFilter f => { t with logger := (t.logger.addAcNameFilter f).2 }
  | .removeAcNameFilter f => { t with logger := (t.logger.removeAcNameFilter f).2 }
  | .clearAcNameFilters => { t with logger := t.logger.clearAcNameFilters }
  | .look k n => t.callback.elim t fun ac => t.move k (.looked ac n)
  | .check k =>
    match t.thread k with
    | .looked ac n => t.move k (if t.logger.acNameFilters.contains n.name then .passed ac n else .idle)
    | _ => t
  | .call k =>
    match t.thread k with
    | .passed ac n => { t.move k .idle with called := t.called ++ [(ac, n)] }
    | _ => t

end Hears

/-- A thread looks when it has called, or was turned away. -/
def HearStep (t : Hears κ γ) (a : HearAct κ γ) (u : Hears κ γ) : Prop :=
  (∀ k n, a = .look k n → t.thread k = .idle) ∧ u = t.act a

namespace HearAct

/-- What the step says of the filter `n`. -/
def word (n : Str) : HearAct κ γ → Option Bool
  | .addAcNameFilter f => if f = n then some true else none
  | .removeAcNameFilter f => if f = n then some false else none
  | .clearAcNameFilters => some false
  | _ => none

def setting : HearAct κ γ → Option (Option γ)
  | .setAppendCallback ac => some ac
  | _ => none

end HearAct

/-- The newest thing that some step of a history says. -/
def newestOf {α β : Type*} (tells : α → Option β) (as : List α) : Option β := as.reverse.findSome? tells

theorem newestOf_snoc {α β : Type*} (tells : α → Option β) (as : List α) (a : α) :
    newestOf tells (as ++ [a]) = (tells a).or (newestOf tells as) := by
  unfold newestOf
  rw [List.reverse_append, List.reverse_singleton, List.singleton_append, List.findSome?_cons]
  cases tells a <;> rfl

/-! ## What decides -/

section
variable {l : Logger} {ac : Option γ} {as : List (HearAct κ γ)} {t u : Hears κ γ} {a : HearAct κ γ}

/-- What a step does to the filters. -/
theorem mem_act (n : Str) :
    n ∈ (t.act a).logger.acNameFilters ↔ (a.word n).getD (t.logger.acNameFilters.contains n) = true := by
  cases a with
  | addAcNameFilter f =>
    refine Logger.mem_addAcNameFilter.trans ?_
    by_cases hf : f = n
    · simp [HearAct.word, hf]
    · simp [HearAct.word, hf, Ne.symm hf]
  | removeAcNameFilter f =>
    refine Logger.mem_removeAcNameFilter.trans ?_
    by_cases hf : f = n
    · simp [HearAct.word, hf]
    · simp [HearAct.word, hf, Ne.symm hf]
  | clearAcNameFilters =>
    show n ∈ t.logger.clearAcNameFilters.acNameFilters ↔ _
    rw [Logger.clearAcNameFilters_eq]
    simp [HearAct.word]
  | setAppendCallback ac => simp [Hears.act, HearAct.word]
  | look k m => cases hac : t.callback <;> simp [Hears.act, Hears.move, HearAct.word, hac]
  | check k => cases hk : t.thread k <;> simp [Hears.act, Hears.move, HearAct.word, hk]
  | call k => cases hk : t.thread k <;> simp [Hears.act, Hears.move, HearAct.word, hk]

theorem callback_act : (t.act a).callback = a.setting.getD t.callback ∧
    (t.logger.appendCallback = t.callback.isSome → (t.act a).logger.appendCallback = (t.act a).callback.isSome) := by
  cases a with
  | addAcNameFilter f =>
    refine ⟨rfl, fun h => ?_⟩
    show (t.logger.addAcNameFilter f).2.appendCallback = _
    unfold Logger.addAcNameFilter
    split <;> exact h
  | removeAcNameFilter f =>
    refine ⟨rfl, fun h => ?_⟩
    show (t.logger.removeAcNameFilter f).2.appendCallback = _
    unfold Logger.removeAcNameFilter
    split <;> exact h
  | clearAcNameFilters =>
    refine ⟨rfl, fun h => ?_⟩
    show t.logger.clearAcNameFilters.appendCallback = _
    rw [Logger.clearAcNameFilters_eq]
    exact h
  | setAppendCallback ac => exact ⟨rfl, fun _ => rfl⟩
  | look k m => cases hac : t.callback <;> simp [Hears.act, Hears.move, HearAct.setting, hac]
  | check k => cases hk : t.thread k <;> simp [Hears.act, Hears.move, HearAct.setting, hk]
  | call k => cases hk : t.thread k <;> simp [Hears.act, Hears.move, HearAct.setting, hk]

/-- **Run lemma**: the filters and the callback, from the history of their changes. -/
theorem filters_newest (hrun : Run HearStep (.start l ac) as t) :
    (∀ n, n ∈ t.logger.acNameFilters ↔ (newestOf (HearAct.word n) as).getD (l.acNameFilters.contains n) = true) ∧
      t.callback = (newestOf HearAct.setting as).getD ac ∧ t.logger.appendCallback = t.callback.isSome := by
  induction hrun with
  | nil => exact ⟨fun n => by simp [newestOf, Hears.start], rfl, rfl⟩
  | @snoc as t a u _ hst ih =>
    obtain ⟨hfilters, hcallback, hset⟩ := ih
    obtain ⟨-, rfl⟩ := hst
    refine ⟨fun n => ?_, ?_, callback_act.2 hset⟩
    · rw [mem_act, newestOf_snoc]
      cases a.word n with
      | none => simpa using hfilters n
      | some b => simp
    · rw [callback_act.1, newestOf_snoc, hcallback]
      cases a.setting <;> rfl

/-- **Who is heard.** After any history of changes, from any number of threads, a record is announced if and only if the
newest callback is one, and the newest change that concerns its name has added it. -/
theorem announced_newest (hrun : Run HearStep (.start l ac) as t) (name : Str) (lvl : LogLevel) (msg : Str) :
    (t.logger.tryDoAcCb name lvl msg).isSome = true ↔
      ((newestOf HearAct.setting as).getD ac).isSome = true ∧
        (newestOf (HearAct.word name) as).getD (l.acNameFilters.contains name) = true := by
  obtain ⟨hfilters, hcallback, hset⟩ := filters_newest hrun
  rw [tryDoAcCb_isSome, hset, hcallback, hfilters]

end

/-- A filter, a callback, and another filter taken back that was never there. -/
def heardMain : List (HearAct Unit Unit) :=
  [.addAcNameFilter (str "main"), .setAppendCallback (some ()), .removeAcNameFilter (str "x")]

theorem announced_newest_main :
    let t : Hears Unit Unit := heardMain.foldl Hears.act (.start freshA none)
    (t.logger.tryDoAcCb (str "main") .note (str "hello")).isSome = true ↔
      ((newestOf HearAct.setting heardMain).getD none).isSome = true ∧
        (newestOf (HearAct.word (str "main")) heardMain).getD (freshA.acNameFilters.contains (str "main")) = true := by
  have hadd : Run HearStep (.start freshA none : Hears Unit Unit) [.addAcNameFilter (str "main")] _ :=
    .single ⟨by rintro _ _ ⟨⟩, rfl⟩
  have hset : Run HearStep (.start freshA none : Hears Unit Unit)
      [.addAcNameFilter (str "main"), .setAppendCallback (some ())] _ := hadd.snoc ⟨by rintro _ _ ⟨⟩, rfl⟩
  have hrun : Run HearStep (.start freshA none : Hears Unit Unit) heardMain _ := hset.snoc ⟨by rintro _ _ ⟨⟩, rfl⟩
  exact announced_newest hrun (str "main") .note (str "hello")

/-! ## Calls that come late -/

namespace Hears

/-- What is called is still set, and the name still a filter. -/
def Timely (t : Hears κ γ) (ac : γ) (n : Notice) : Prop := t.callback = some ac ∧ n.name ∈ t.logger.acNameFilters

/-- The callback that the history of its changes leaves, and whether it leaves `name` among the filters. -/
def newestCallback (ac : Option γ) (as : List (HearAct κ γ)) : Option γ := (newestOf HearAct.setting as).getD ac

def filtered (l : Logger) (name : Str) (as : List (HearAct κ γ)) : Bool :=
  (newestOf (HearAct.word name) as).getD (l.acNameFilters.contains name)

/-- Where a thread is in `tryDoAcCb`, in the history: its look, which found the callback, and its check behind that,
which found the name; with what the callback and the filters have become since. -/
def Traced (l : Logger) (ac₀ : Option γ) (as : List (HearAct κ γ)) (t : Hears κ γ) (k : κ) : Hearing γ → Prop
  | .idle => True
  | .looked ac n => ∃ before bs, as = before ++ .look k n :: bs ∧ (∀ m, .look k m ∉ bs) ∧ .check k ∉ bs ∧
      newestCallback ac₀ before = some ac ∧ t.callback = (newestOf HearAct.setting bs).getD (some ac)
  | .passed ac n => ∃ before bs cs, as = before ++ .look k n :: (bs ++ .check k :: cs) ∧
      (∀ m, .look k m ∉ bs ++ .check k :: cs) ∧ .check k ∉ bs ∧
      newestCallback ac₀ before = some ac ∧ filtered l n.name (before ++ .look k n :: bs) = true ∧
      t.callback = (newestOf HearAct.setting (bs ++ .check k :: cs)).getD (some ac) ∧
      (n.name ∈ t.logger.acNameFilters ↔ (newestOf (HearAct.word n.name) cs).getD true = true)

variable {l : Logger} {ac₀ : Option γ} {as : List (HearAct κ γ)} {t u : Hears κ γ} {a : HearAct κ γ} {k : κ}
  {h : Hearing γ}

/-- A step that is none of the thread's own. -/
theorem Traced.snoc (ht : Traced l ac₀ as t k h) (hlook : ∀ m, a ≠ .look k m)
    (hcheck : a ≠ .check k ∨ ∃ ac n, h = .passed ac n) : Traced l ac₀ (as ++ [a]) (t.act a) k h := by
  have hcall : ∀ {bs : List (HearAct κ γ)} {ac : γ}, t.callback = (newestOf HearAct.setting bs).getD (some ac) →
      (t.act a).callback = (newestOf HearAct.setting (bs ++ [a])).getD (some ac) := by
    intro bs ac hbs
    rw [callback_act.1, newestOf_snoc, hbs]
    cases a.setting <;> rfl
  cases h with
  | idle => trivial
  | looked ac n =>
    obtain ⟨before, bs, rfl, hbs, hnone, hbefore, hset⟩ := ht
    have hother : a ≠ .check k := hcheck.resolve_right nofun
    refine ⟨before, bs ++ [a], by simp, fun m => ?_, ?_, hbefore, hcall hset⟩
    · simpa [hbs m] using Ne.symm (hlook m)
    · simpa [hnone] using Ne.symm hother
  | passed ac n =>
    obtain ⟨before, bs, cs, rfl, hbs, hnone, hbefore, hnamed, hset, hname⟩ := ht
    refine ⟨before, bs, cs ++ [a], by simp, fun m => ?_, hnone, hbefore, hnamed, ?_, ?_⟩
    · have hold := hbs m
      simp only [List.mem_append, List.mem_cons, not_or] at hold ⊢
      exact ⟨hold.1, hold.2.1, hold.2.2, Ne.symm (hlook m), by simp⟩
    · simpa using hcall hset
    · rw [mem_act, newestOf_snoc]
      cases a.word n.name with
      | none => simpa using hname
      | some b => simp

theorem act_other (hlook : ∀ m, a ≠ .look k m) (hcheck : a ≠ .check k) (hcall : a ≠ .call k) :
    (t.act a).thread k = t.thread k := by
  cases a with
  | look j m =>
    have hj : k ≠ j := fun h => hlook m (h ▸ rfl)
    cases hac : t.callback <;> simp [act, hac, hj]
  | check j =>
    have hj : k ≠ j := fun h => hcheck (h ▸ rfl)
    cases ht : t.thread j <;> simp [act, ht, hj]
  | call j =>
    have hj : k ≠ j := fun h => hcall (h ▸ rfl)
    cases ht : t.thread j <;> simp [act, ht, move, hj]
  | setAppendCallback | addAcNameFilter | removeAcNameFilter | clearAcNameFilters => rfl

theorem traced_look (hidle : t.thread k = .idle) (hset : t.callback = newestCallback ac₀ as) (n : Notice) :
    Traced l ac₀ (as ++ [.look k n]) (t.act (.look k n)) k ((t.act (.look k n)).thread k) := by
  cases hac : t.callback with
  | none =>
    have hact : t.act (.look k n) = t := by simp [act, hac]
    rw [hact, hidle]
    trivial
  | some ac =>
    have hact : t.act (.look k n) = t.move k (.looked ac n) := by simp [act, hac]
    rw [hact, move_self]
    exact ⟨as, [], rfl, by simp, by simp, hset.symm.trans hac, hac⟩

theorem traced_check (hnames : ∀ n, n ∈ t.logger.acNameFilters ↔ filtered l n as = true)
    (ht : Traced l ac₀ as t k (t.thread k)) :
    Traced l ac₀ (as ++ [.check k]) (t.act (.check k)) k ((t.act (.check k)).thread k) := by
  cases hk : t.thread k with
  | idle =>
    have hact : t.act (.check k) = t := by simp [act, hk]
    rw [hact, hk]
    trivial
  | passed ac n =>
    rw [hk] at ht
    have hact : (t.act (.check k)).thread k = .passed ac n := by simp [act, hk]
    rw [hact]
    exact ht.snoc (by simp) (.inr ⟨ac, n, rfl⟩)
  | looked ac n =>
    rw [hk] at ht
    obtain ⟨before, bs, rfl, hbs, hnone, hbefore, hset⟩ := ht
    by_cases hin : n.name ∈ t.logger.acNameFilters
    · have hact : t.act (.check k) = t.move k (.passed ac n) := by simp [act, hk, hin]
      rw [hact, move_self]
      refine ⟨before, bs, [], by simp, fun m => by simpa using hbs m, hnone, hbefore, (hnames _).1 hin, ?_,
        iff_of_true hin rfl⟩
      rw [newestOf_snoc]
      exact hset
    · have hact : t.act (.check k) = t.move k .idle := by simp [act, hk, hin]
      rw [hact, move_self]
      trivial

theorem traced_call (ht : Traced l ac₀ as t k (t.thread k)) :
    Traced l ac₀ (as ++ [.call k]) (t.act (.call k)) k ((t.act (.call k)).thread k) := by
  cases hk : t.thread k with
  | passed ac n =>
    have hact : (t.act (.call k)).thread k = .idle := by simp [act, hk, move]
    rw [hact]
    trivial
  | idle | looked =>
    have hact : (t.act (.call k)).thread k = t.thread k := by simp [act, hk]
    rw [hact]
    rw [hk] at ht ⊢
    exact ht.snoc (by simp) (.inl (by simp))

/-- **Run lemma**: every thread in `tryDoAcCb` has looked and checked. -/
theorem traced (hrun : Run HearStep (.start l ac₀) as t) (k : κ) : Traced l ac₀ as t k (t.thread k) := by
  induction hrun with
  | nil => trivial
  | @snoc as t a u hbefore hst ih =>
    obtain ⟨hidle, rfl⟩ := hst
    obtain ⟨hnames, hset, -⟩ := filters_newest hbefore
    by_cases hlook : ∃ m, a = .look k m
    · obtain ⟨m, rfl⟩ := hlook
      exact traced_look (hidle k m rfl) hset m
    by_cases hcheck : a = .check k
    · subst hcheck
      exact traced_check hnames ih
    by_cases hcall : a = .call k
    · subst hcall
      exact traced_call ih
    have hlook : ∀ m, a ≠ .look k m := fun m hm => hlook ⟨m, hm⟩
    rw [act_other hlook hcheck hcall]
    exact ih.snoc hlook (.inl hcheck)

end Hears

/-- **Which calls come late.** A thread that will call has looked, and found the callback that it will call; after
that it has checked, and found the name among the filters. The callback is still set, and the name still a filter, if
and only if the newest change of the callback after the look has set it again, if there is one, and the newest change
after the check that concerns the name has added it. -/
theorem call_timely_iff {l : Logger} {ac : Option γ} {as : List (HearAct κ γ)} {t : Hears κ γ}
    (hrun : Run HearStep (.start l ac) as t) {k : κ} {cb : γ} {n : Notice} (hk : t.thread k = .passed cb n) :
    (t.act (.call k)).called = t.called ++ [(cb, n)] ∧
      ∃ before bs cs, as = before ++ .look k n :: (bs ++ .check k :: cs) ∧
        (∀ m, .look k m ∉ bs ++ .check k :: cs) ∧ .check k ∉ bs ∧
        Hears.newestCallback ac before = some cb ∧ Hears.filtered l n.name (before ++ .look k n :: bs) = true ∧
        (t.Timely cb n ↔ (newestOf HearAct.setting (bs ++ .check k :: cs)).getD (some cb) = some cb ∧
          (newestOf (HearAct.word n.name) cs).getD true = true) := by
  have htraced := Hears.traced hrun k
  rw [hk] at htraced
  obtain ⟨before, bs, cs, has, hlook, hcheck, hbefore, hnamed, hset, hname⟩ := htraced
  refine ⟨by simp [Hears.act, hk], before, bs, cs, has, hlook, hcheck, hbefore, hnamed, ?_⟩
  unfold Hears.Timely
  rw [hset, hname]

/-- The callback is set; a thread has looked and checked; then the filter is taken away, and the callback set again. -/
def lateRun : List (HearAct Unit Unit) :=
  [.look () ⟨str "main", .note, []⟩, .check (), .removeAcNameFilter (str "main"), .setAppendCallback (some ())]

def listening : Hears Unit Unit := .start { freshA with acNameFilters := [str "main"] } (some ())

theorem call_timely_iff_late :
    let t := lateRun.foldl Hears.act listening
    let n : Notice := ⟨str "main", .note, []⟩
    (t.act (.call ())).called = t.called ++ [((), n)] ∧
      ∃ before bs cs, lateRun = before ++ .look () n :: (bs ++ .check () :: cs) ∧
        (∀ m, .look () m ∉ bs ++ .check () :: cs) ∧ .check () ∉ bs ∧
        Hears.newestCallback (some ()) before = some () ∧
        Hears.filtered { freshA with acNameFilters := [str "main"] } n.name (before ++ .look () n :: bs) = true ∧
        (t.Timely () n ↔ (newestOf HearAct.setting (bs ++ .check () :: cs)).getD (some ()) = some () ∧
          (newestOf (HearAct.word n.name) cs).getD true = true) := by
  intro t n
  have hlook : Run HearStep listening [.look () n, .check ()] _ :=
    .snoc (.single ⟨by simp [listening, Hears.start], rfl⟩) ⟨by simp, rfl⟩
  have hrun : Run HearStep listening lateRun t := .snoc (hlook.snoc ⟨by simp, rfl⟩) ⟨by simp, rfl⟩
  exact call_timely_iff hrun rfl

example : ¬ (lateRun.foldl Hears.act listening).Timely () ⟨str "main", .note, []⟩ := by
  rintro ⟨-, hname⟩
  exact absurd hname (by decide)

/-- Without other threads between, `tryDoAcCb` is one step. -/
theorem hears_alone {t : Hears κ γ} {k : κ} {n : Notice} (hidle : t.thread k = .idle)
    (hset : t.logger.appendCallback = t.callback.isSome) :
    (((t.act (.look k n)).act (.check k)).act (.call k)).called =
      t.called ++ (t.callback.toList.map fun ac => (ac, n)).filter
        fun _ => (t.logger.tryDoAcCb n.name n.level n.msg).isSome := by
  cases hac : t.callback with
  | none => simp [Hears.act, hac, hidle]
  | some ac =>
    rw [hac] at hset
    have hmem := tryDoAcCb_isSome n.name n.level n.msg (l := t.logger)
    rw [hset] at hmem
    by_cases hin : n.name ∈ t.logger.acNameFilters
    · have hheard := hmem.2 ⟨rfl, hin⟩
      simp [Hears.act, Hears.move, hac, hin, hheard]
    · have hsilent : (t.logger.tryDoAcCb n.name n.level n.msg).isSome = false := by
        simpa [hin] using hmem
      simp [Hears.act, Hears.move, hac, hin, hsilent]

end CtiLog
