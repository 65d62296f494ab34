import CtiLog.Registry
/-
# The level of one statement

`Logger::getX(path) << msg` asks for its level in `spinOnceLogLevel` of the logger, where `append` takes
it. It is one field of the logger: a second statement that asks before the first has appended replaces
its level (`fatal_dropped`). A statement is emitted at its own level, or dropped for it, in every run in
which a request meets a pending one only where both are for `logLevel` (`own_level`), and every other
meeting can spoil one of the two (`mixed_not_kept`).

| here | there |
| --- | --- |
| `Getter`            | `getFatal` to `getDetail` (log.hpp:366-397) |
| `Logger.request`    | what `getLogger` asks of the instance (log.cpp:53-58, :64-69) |
| `Logger.shiftLeft`  | `operator<<` (log.hpp:674-694) |
-/

namespace CtiLog

open Runs

inductive Getter where
  | getFatal | getError | getWarning | getNote | getInfo | getTrace | getDebug | getDetail
deriving DecidableEq, Repr

/-- What it passes to `getLogger`. -/
def Getter.level : Getter → LogLevel
  | .getFatal => .fata
  | .getError => .erro
  | .getWarning => .warn
  | .getNote => .note
  | .getInfo => .info
  | .getTrace => .trac
  | .getDebug => .debu
  | .getDetail => .deta

theorem level_ne_unchange (g : Getter) : g.level ≠ .unchange := by
  cases g <;> decide

namespace Logger

/-- `operator<<`. -/
def shiftLeft (pf : Platform) (io : AppendIO) (msg : Str) (l : Logger) (w : World) : Appended × Logger × World :=
  l.append5 pf io ⟨none, none, -1, msg, l.logLevel⟩ w

/-- Some output takes a record: the console, or a log that is open or gets opened. -/
def delivers (pf : Platform) (io : AppendIO) (l : Logger) (w : World) : Bool :=
  l.outputs.testFlag .coutOrCerr ||
    (l.outputs.testFlag .file && (l.ensureLog pf io.reset0 io.fit w).2.1.log.isSome)

end Logger

/-! ## What an append emits -/

section
variable {pf : Platform} {l : Logger} {w : World}

/-- A `reset` that fails leaves no log open. -/
theorem reset_failed {io : ResetIO} (hpath : l.path ≠ []) (hout : l.outputs.testFlag .file = true) (hlog : l.log = none)
    (hr : (l.reset pf false io w).1 < 0) : (l.reset pf false io w).2.1.log = none := by
  rw [reset_closed false io hpath hout hlog] at hr ⊢
  split at hr
  · cases hr
  · exact hlog

/-- A log that could not be opened: the record is refused if there is no console. -/
theorem ensureLog_refused {reset0 : ResetIO} {fit : ShrinkIO} {r : Int} (hpath : l.path ≠ [])
    (h : (l.ensureLog pf reset0 fit w).1 = some r) :
    l.outputs.testFlag .coutOrCerr = false ∧ (l.ensureLog pf reset0 fit w).2.1.log = none := by
  unfold Logger.ensureLog at h ⊢
  split at h
  · rename_i hclosed
    rw [if_pos hclosed]
    obtain ⟨hout, hlog⟩ : l.outputs.testFlag .file = true ∧ l.log = none := by simpa using hclosed
    have hfailed := @reset_failed pf l w reset0 hpath hout hlog
    obtain ⟨o, ho⟩ := @acts_settings pf False False _ _ (reset_acts false reset0 : Acts pf False False False (l, w) _)
    generalize l.reset pf false reset0 w = q at *
    obtain ⟨e, l', w'⟩ := q
    obtain rfl : l' = { l with log := o } := ho
    dsimp only at h hfailed ⊢
    split at h
    · rename_i he
      rw [if_pos he]
      refine ⟨?_, hfailed he⟩
      split at h
      · cases h
      · rename_i hcout
        exact Bool.eq_false_of_not_eq_true hcout
    · cases h
  · cases h

/-- Which records reach an output in the critical section. -/
theorem writeRecord_level (io : AppendIO) (m : Msg) (lvl : LogLevel) :
    (l.writeRecord io m lvl w).1.entry.map Entry.level =
      if l.outputs.testFlag .coutOrCerr || (l.outputs.testFlag .file && l.log.isSome) then some lvl else none := by
  unfold Logger.writeRecord
  dsimp only
  split
  · rename_i hout
    cases hlog : l.log with
    | none => cases hc : l.outputs.testFlag .coutOrCerr <;> simp
    | some s => simp [hout]
  · rename_i hout
    cases hc : l.outputs.testFlag .coutOrCerr <;> simp [hout]

theorem delivers_none (io : AppendIO) (h : l.outputs = .none) : l.delivers pf io w = false := by
  unfold Logger.delivers
  rw [h]
  rfl

/-- Before the record is counted: a record that is not let through, or that no output takes. -/
theorem enter_level {io : AppendIO} {ll : LogLevel} (hpath : l.path ≠ []) :
    (∃ r l' w', l.enter pf io ll w = (.error r, l', w') ∧
        ((l.gate ll).1 = none ∨ (l.gate ll).2.delivers pf io w = false)) ∨
    ∃ lvl l' w', l.enter pf io ll w = (.ok lvl, l', w') ∧ (l.gate ll).1 = some lvl ∧
      (l'.outputs.testFlag .coutOrCerr || (l'.outputs.testFlag .file && l'.log.isSome)) =
        (l.gate ll).2.delivers pf io w := by
  have hsettings := @acts_settings pf _ False _ _ (ensureLog_acts io.reset0 io.fit :
    Acts pf _ False False ({ l with spinOnceLogLevel := .unchange }, w)
      (Logger.ensureLog pf io.reset0 io.fit { l with spinOnceLogLevel := .unchange } w).2)
  have hrefused := @ensureLog_refused pf { l with spinOnceLogLevel := .unchange } w io.reset0 io.fit
  have henter := enter_enters pf io ll l w
  rw [gate_takes]
  generalize l.enter pf io ll w = e at henter ⊢
  cases henter with
  | pathless h => exact absurd h hpath
  | gated _ hgate => exact .inl ⟨_, _, _, rfl, .inl hgate⟩
  | silent _ _ hnone => exact .inl ⟨_, _, _, rfl, .inr (delivers_none io hnone)⟩
  | @refused lvl r l' w' _ _ _ he =>
    rw [he] at hrefused
    have hcout : l.outputs.testFlag .coutOrCerr = false := (hrefused hpath rfl).1
    have hlog : l'.log = none := (hrefused hpath rfl).2
    refine .inl ⟨r, _, _, rfl, .inr ?_⟩
    unfold Logger.delivers
    rw [he]
    simp [hcout, hlog]
  | @entered lvl l' w' _ hgate _ he =>
    refine .inr ⟨lvl, _, _, rfl, hgate, ?_⟩
    rw [he] at hsettings
    obtain ⟨o, rfl⟩ := hsettings
    unfold Logger.delivers
    rw [he]

/-- **The level a record is emitted at**: what the gate says, if an output takes it. -/
theorem append5_level {io : AppendIO} {m : Msg} (hpath : l.path ≠ []) :
    (l.append5 pf io m w).1.entry.map Entry.level =
      if (l.gate m.logLevel).2.delivers pf io w then (l.gate m.logLevel).1 else none := by
  unfold Logger.append5
  rcases @enter_level pf l w io m.logLevel hpath with ⟨r, l', w', he, h⟩ | ⟨lvl, l', w', he, hlvl, hd⟩
  · rw [he]
    rcases h with h | h <;> simp [h]
  · rw [he, hlvl, ← hd]
    exact writeRecord_level io m lvl

theorem gate_pending {g : Getter} (ll : LogLevel) (h : l.spinOnceLogLevel = g.level) :
    (l.gate ll).1 = if l.logLevel.val < g.level.val then none else some g.level := by
  have hspin : l.spinOnceLogLevel ≠ .unchange := h ▸ level_ne_unchange g
  unfold Logger.gate
  rw [if_pos hspin, h]

/-- Nothing is pending: `operator<<` is at `logLevel`, which passes the gate. -/
theorem gate_logLevel (h : l.spinOnceLogLevel = .unchange) : (l.gate l.logLevel).1 = some l.logLevel := by
  unfold Logger.gate
  rw [if_neg (not_not.2 h), if_neg (by simp)]

theorem shiftLeft_settings (io : AppendIO) (msg : Str) (hpath : l.path ≠ []) :
    ∃ o, (l.shiftLeft pf io msg w).2.1 = { l with spinOnceLogLevel := .unchange, log := o } := by
  obtain ⟨o, ho⟩ := @append5_settings pf l w io ⟨none, none, -1, msg, l.logLevel⟩ hpath
  rw [gate_takes] at ho
  exact ⟨o, ho⟩

end

/-! ## Clients of one logger -/

/-- A statement whose `append` has returned. -/
structure Served where
  level : LogLevel
  logLevel : LogLevel
  delivers : Bool
  entry : Option Entry

structure Spin where
  log : Logger
  world : World
  /-- The clients between `getLogger` and `append`. -/
  pending : Nat → Option Getter
  served : List Served

def Spin.start (l : Logger) (w : World) : Spin := ⟨l, w, fun _ => none, []⟩

inductive SpinAct where
  | get (client : Nat) (g : Getter) (outputs : Outputs)
  | append (client : Nat) (io : AppendIO) (msg : Str)

/-- The two halves of a statement; the logger is in the map. -/
inductive SpinStep (pf : Platform) : Spin → SpinAct → Spin → Prop
  | get {t : Spin} {client : Nat} (g : Getter) (o : Outputs) : t.pending client = none →
      SpinStep pf t (.get client g o)
        { t with log := t.log.request g.level o, pending := Function.update t.pending client (some g) }
  | append {t : Spin} {client : Nat} {g : Getter} (io : AppendIO) (msg : Str) : t.pending client = some g →
      SpinStep pf t (.append client io msg)
        { log := (t.log.shiftLeft pf io msg t.world).2.1
          world := (t.log.shiftLeft pf io msg t.world).2.2
          pending := Function.update t.pending client none
          served := t.served ++ [⟨g.level, t.log.logLevel, (t.log.gate t.log.logLevel).2.delivers pf io t.world,
            (t.log.shiftLeft pf io msg t.world).1.entry⟩] }

/-- A request meets a pending one only where both are for the logger's `logLevel`. -/
def Unmixed (t : Spin) : SpinAct → Prop
  | .get _ g _ => ∀ c h, t.pending c = some h → g.level = t.log.logLevel ∧ h.level = t.log.logLevel
  | .append _ _ _ => True

/-- Emitted if and only if its own level lets it, and at that level. -/
structure Served.Kept (s : Served) : Prop where
  emitted : s.entry.isSome ↔ s.level.val ≤ s.logLevel.val ∧ s.delivers = true
  tagged : ∀ e ∈ s.entry, e.level = s.level

/-! ## The invariant -/

structure SpinInv (t : Spin) : Prop where
  path : t.log.path ≠ []
  own : ∀ c g, t.pending c = some g →
    t.log.spinOnceLogLevel = g.level ∨ (t.log.spinOnceLogLevel = .unchange ∧ g.level = t.log.logLevel)
  mixed : ∀ c d g h, c ≠ d → t.pending c = some g → t.pending d = some h → g.level = t.log.logLevel
  kept : ∀ s ∈ t.served, s.Kept

variable {pf : Platform} {t u : Spin}

theorem request_logLevel (ll : LogLevel) (o : Outputs) (l : Logger) : (l.request ll o).logLevel = l.logLevel := by
  unfold Logger.request
  split <;> split <;> rfl

theorem request_spin (g : Getter) (o : Outputs) (l : Logger) : (l.request g.level o).spinOnceLogLevel = g.level := by
  unfold Logger.request
  rw [if_pos (level_ne_unchange g)]
  split <;> rfl

/-- An append that takes the level of its own statement. -/
theorem kept_of_gate {l : Logger} {w : World} {g : Getter} (io : AppendIO) (msg : Str) (hpath : l.path ≠ [])
    (hg : (l.gate l.logLevel).1 = if l.logLevel.val < g.level.val then none else some g.level) :
    Served.Kept ⟨g.level, l.logLevel, (l.gate l.logLevel).2.delivers pf io w, (l.shiftLeft pf io msg w).1.entry⟩ := by
  have hlevel : (l.shiftLeft pf io msg w).1.entry.map Entry.level = _ := append5_level hpath
  dsimp only at hlevel
  rw [hg] at hlevel
  generalize (l.shiftLeft pf io msg w).1.entry = e at *
  generalize (l.gate l.logLevel).2.delivers pf io w = d at *
  by_cases hlt : l.logLevel.val < g.level.val
  · rw [if_pos hlt, ite_self] at hlevel
    obtain rfl : e = none := Option.map_eq_none_iff.1 hlevel
    refine ⟨?_, fun _ h => by cases h⟩
    simp [UInt32.not_le.2 hlt]
  · rw [if_neg hlt] at hlevel
    have hle := UInt32.not_lt.1 hlt
    cases d with
    | false =>
      obtain rfl : e = none := Option.map_eq_none_iff.1 hlevel
      exact ⟨by simp, fun _ h => by cases h⟩
    | true =>
      obtain ⟨e', rfl, he'⟩ := Option.map_eq_some_iff.1 hlevel
      refine ⟨by simp [hle], ?_⟩
      rintro _ ⟨⟩
      exact he'

/-- A request: what it meets is for `logLevel`, and so is the request then. -/
theorem SpinInv.get {client : Nat} (ht : SpinInv t) (g : Getter) (o : Outputs)
    (hmeets : ∀ c h, t.pending c = some h → g.level = t.log.logLevel ∧ h.level = t.log.logLevel) :
    SpinInv { t with log := t.log.request g.level o, pending := Function.update t.pending client (some g) } := by
  have hlevel := request_logLevel g.level o t.log
  have hspin := request_spin g o t.log
  refine ⟨?_, ?_, ?_, ht.kept⟩
  · rw [request_path]
    exact ht.path
  · intro c h hc
    dsimp only at hc ⊢
    by_cases hcc : c = client
    · subst hcc
      obtain rfl : g = h := by simpa using hc
      exact .inl hspin
    · obtain ⟨hg, hh⟩ := hmeets c h (by simpa [hcc] using hc)
      exact .inl (hspin.trans (hg.trans hh.symm))
  · intro c d h h' hcd hc hd
    dsimp only at hc hd ⊢
    rw [hlevel]
    by_cases hcc : c = client
    · subst hcc
      obtain rfl : g = h := by simpa using hc
      exact (hmeets d h' (by simpa [hcd.symm] using hd)).1
    · exact (hmeets c h (by simpa [hcc] using hc)).2

/-- An append that serves its statement as it should: what is still pending is for `logLevel`. -/
theorem SpinInv.append {client : Nat} {g : Getter} {l : Logger} {w : World} {o : Option Stream} {s : Served}
    (ht : SpinInv t)
    (hpend : t.pending client = some g) (hl : l = { t.log with spinOnceLogLevel := .unchange, log := o })
    (hs : s.Kept) :
    SpinInv ⟨l, w, Function.update t.pending client none, t.served ++ [s]⟩ := by
  subst hl
  have hback : ∀ c h, Function.update t.pending client none c = some h → c ≠ client ∧ t.pending c = some h := by
    intro c h hc
    by_cases hcc : c = client
    · subst hcc
      simp at hc
    · exact ⟨hcc, by simpa [hcc] using hc⟩
  refine ⟨ht.path, ?_, ?_, ?_⟩
  · intro c h hc
    obtain ⟨hcc, hc⟩ := hback c h hc
    exact .inr ⟨rfl, ht.mixed c client h g hcc hc hpend⟩
  · intro c d h h' hcd hc hd
    exact ht.mixed c d h h' hcd (hback c h hc).2 (hback d h' hd).2
  · intro s' hs'
    rcases List.mem_append.1 hs' with hs' | hs'
    · exact ht.kept s' hs'
    · rw [List.mem_singleton.1 hs']
      exact hs

/-- What an append of a pending statement takes. -/
theorem SpinInv.gate {client : Nat} {g : Getter} (ht : SpinInv t) (hpend : t.pending client = some g) :
    (t.log.gate t.log.logLevel).1 = if t.log.logLevel.val < g.level.val then none else some g.level := by
  rcases ht.own client g hpend with hown | ⟨hidle, hg⟩
  · exact gate_pending _ hown
  · rw [gate_logLevel hidle, hg, if_neg (by simp)]

/-- **Step lemma**: a request that meets no other level. -/
theorem spinStep_inv {a : SpinAct} (ht : SpinInv t) (h : Guarded Unmixed (SpinStep pf) t a u) : SpinInv u := by
  obtain ⟨hguard, hstep⟩ := h
  cases hstep with
  | get g o hidle => exact ht.get g o hguard
  | append io msg hpend =>
    obtain ⟨o, ho⟩ := @shiftLeft_settings pf t.log t.world io msg ht.path
    exact ht.append hpend ho (kept_of_gate io msg ht.path (ht.gate hpend))

/-- **A level requested for a statement is its own**, in every run in which a request meets a pending one
only where both are for `logLevel`. -/
theorem own_level {l : Logger} {w : World} (hpath : l.path ≠ []) {as : List SpinAct}
    (hrun : Run (Guarded Unmixed (SpinStep pf)) (.start l w) as t) : ∀ s ∈ t.served, s.Kept := by
  have hstart : SpinInv (.start l w) :=
    ⟨hpath, fun _ _ h => (by cases h), fun _ _ _ _ _ h => (by cases h), fun _ h => (by cases h)⟩
  exact (hrun.inv _ hstart fun _ _ _ => spinStep_inv).kept

/-- An append to a logger with a console emits what the gate says. -/
theorem shiftLeft_console {l : Logger} {w : World} (io : AppendIO) (msg : Str) (hpath : l.path ≠ [])
    (hout : l.outputs.testFlag .coutOrCerr = true) :
    (l.shiftLeft pf io msg w).1.entry.map Entry.level = (l.gate l.logLevel).1 := by
  have hd : (l.gate l.logLevel).2.delivers pf io w = true := by
    rw [gate_takes]
    simp [Logger.delivers, hout]
  exact (append5_level hpath).trans (if_pos hd)

theorem Served.Kept.level_eq {s : Served} {ll : LogLevel} (h : s.Kept) (he : s.entry.map Entry.level = some ll) :
    s.level = ll := by
  obtain ⟨e, hmem, hlevel⟩ := Option.map_eq_some_iff.1 he
  exact (h.tagged e hmem).symm.trans hlevel

/-- **Any other meeting can spoil a statement**: the pending one takes the level of the request, and the
request is left with `logLevel`. -/
theorem mixed_not_kept {c d : Nat} {g h : Getter} {o : Outputs} (io io' : AppendIO) (msg msg' : Str)
    (hpath : t.log.path ≠ [])
    (hidle : t.pending c = none) (hpend : t.pending d = some h)
    (hout : (t.log.request g.level o).outputs.testFlag .coutOrCerr = true)
    (hmixed : ¬ (g.level = t.log.logLevel ∧ h.level = t.log.logLevel)) :
    ∃ v, Run (SpinStep pf) t [.get c g o, .append d io msg, .append c io' msg'] v ∧ ∃ s ∈ v.served, ¬ s.Kept := by
  have hcd : d ≠ c := by
    rintro rfl
    rw [hidle] at hpend
    cases hpend
  have hget := Run.single (SpinStep.get g o hidle : SpinStep pf t _ _)
  have hpend' : Function.update t.pending c (some g) d = some h := by simpa [hcd] using hpend
  have hfirst := hget.snoc (.append io msg hpend')
  have hsecond := hfirst.snoc (@SpinStep.append pf _ c g io' msg' (by simp [hcd.symm]))
  refine ⟨_, hsecond, ?_⟩
  by_contra hkept
  simp only [not_exists, not_and, not_not] at hkept
  have hpath₁ : (t.log.request g.level o).path ≠ [] := by
    rw [request_path]
    exact hpath
  have hlevel := request_logLevel g.level o t.log
  generalize hl : t.log.request g.level o = l at *
  obtain ⟨o', ho⟩ := @shiftLeft_settings pf l t.world io msg hpath₁
  -- the second append finds nothing pending
  have hg : g.level = t.log.logLevel := by
    apply (hkept _ (List.mem_append_right _ (List.mem_singleton.2 rfl))).level_eq
    dsimp only
    rw [shiftLeft_console io' msg' (by rw [ho]; exact hpath₁) (by rw [ho]; exact hout), gate_logLevel (by rw [ho]),
      ho, hlevel]
  -- so the first one took `logLevel`
  have hh : h.level = g.level := by
    apply (hkept _ (List.mem_append_left _ (List.mem_append_right _ (List.mem_singleton.2 rfl)))).level_eq
    dsimp only
    rw [shiftLeft_console io msg hpath₁ hout, gate_pending _ (hl ▸ request_spin g o t.log), hlevel, hg,
      if_neg (by simp)]
  exact hmixed ⟨hg, hh.trans hg⟩

/-! ## Two clients -/

/-- One logger, with an empty log open. -/
def spinA : Spin := .start openedA (openedWorld [])

/-- A fatal statement alone. -/
theorem own_level_fatal :
    ∃ t : Spin, t.served.map (·.entry.map Entry.level) = [some .fata] ∧ ∀ s ∈ t.served, s.Kept := by
  have hget : Run (Guarded Unmixed (SpinStep plain)) spinA _ _ :=
    .single ⟨by exact fun _ _ h => (by cases h), @SpinStep.get plain spinA 0 .getFatal .none rfl⟩
  have happend := hget.snoc ⟨by trivial, @SpinStep.append plain _ 0 .getFatal .ok (str "hello") rfl⟩
  exact ⟨_, by decide, own_level (by decide) happend⟩

/-- **A fatal statement is dropped**: another client asks for `Deta` before it has appended. -/
theorem fatal_dropped : ∃ as t, Run (SpinStep plain) spinA as t ∧ ¬ ∀ s ∈ t.served, s.Kept := by
  have hfatal := Run.single (@SpinStep.get plain spinA 0 .getFatal .none rfl)
  have hdetail := hfatal.snoc (@SpinStep.get plain _ 1 .getDetail .none rfl)
  have happend := hdetail.snoc (@SpinStep.append plain _ 0 .getFatal .ok (str "hello") rfl)
  refine ⟨_, _, happend, fun h => ?_⟩
  have hemitted := (h _ (List.mem_singleton.2 rfl)).emitted
  exact absurd hemitted (by decide)

end CtiLog
