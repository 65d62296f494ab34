import CtiLog.Acts
/-
# What an operation leaves alone

The stream of a logger is a stream on its own path, whatever was done to it (`acts_named`). So an
operation changes the entries of `path`, of `path + ".1"` and of the directories on the way, and
no other (`acts_frame`).
-/

namespace CtiLog

variable {pf : Platform} {twice counts sets : Prop} {a b : Logger × World}

/-- The open stream, if any, is on the logger's path. -/
def Named (pf : Platform) (l : Logger) : Prop := ∀ s ∈ l.log, s.name = l.name pf

theorem act_path (h : Act pf twice counts sets a b) : b.1.path = a.1.path := by
  cases h with
  | config _ hp _ => exact hp
  | _ => rfl

theorem acts_path (h : Acts pf twice counts sets a b) : b.1.path = a.1.path := by
  induction h with
  | refl => rfl
  | tail _ hst ih => exact (act_path hst).trans ih

theorem named_some {l : Logger} {s : Stream} (hl : l.log = some s) (h : Named pf l) : s.name = l.name pf := h s hl

theorem act_named (h : Act pf twice counts sets a b) (ha : Named pf a.1) : Named pf b.1 := by
  unfold Named at *
  cases h with
  | config _ hp hl =>
    intro s hs
    have := ha s (by simpa [hl] using hs)
    rw [this, Logger.name, Logger.name, hp]
  | fflush o hl =>
    have hname := named_some hl ha
    rintro _ ⟨⟩
    exact hname
  | fwrite bs o hl =>
    have hname := named_some hl ha
    rintro _ ⟨⟩
    exact hname
  | fclose o _ => simp
  | again => exact ha
  | mkdirs => exact ha
  | fopen mode fail _ _ ho =>
    obtain ⟨-, hname, -⟩ := fopen_some ho
    rintro s ⟨⟩
    exact hname
  | count => exact ha
  | copy => exact ha

theorem acts_named (h : Acts pf twice counts sets a b) (ha : Named pf a.1) : Named pf b.1 := by
  induction h with
  | refl => exact ha
  | tail _ hst ih => exact act_named hst ih

/-- The entry `n` is neither the log nor the backup of a logger for `path`. -/
structure Apart (pf : Platform) (path : Str) (n : Name) : Prop where
  log : n ≠ resolve pf path
  backup : n ≠ resolve pf (path ++ dot1)

/-- **Step lemma**: only `MkDirs` changes an entry apart. -/
theorem act_apart {n : Name} (h : Act pf twice counts sets a b) (hnamed : Named pf a.1) (hn : Apart pf a.1.path n) :
    b.2.fs n = a.2.fs n ∨ ∃ io, b.2 = (mkDirs pf (dirname a.1.path) io a.2).2 := by
  cases h with
  | config => exact .inl rfl
  | fflush o hl => exact .inl (fflush_other _ _ _ (named_some hl hnamed ▸ hn.log))
  | fwrite bs o hl => exact .inl (fwrite_other _ _ _ _ (named_some hl hnamed ▸ hn.log))
  | fclose o hl => exact .inl (fclose_other _ _ _ (named_some hl hnamed ▸ hn.log))
  | again => exact .inl rfl
  | mkdirs io => exact .inr ⟨io, rfl⟩
  | fopen mode fail _ _ ho =>
    obtain ⟨-, -, -, -, -, -, -, hfs⟩ := fopen_some ho
    exact .inl (hfs n hn.log)
  | count => exact .inl rfl
  | copy hc => exact .inl (hc.fs n hn.backup)

/-- **The frame of an operation**: an entry apart, unless a directory is made there. -/
theorem acts_frame {n : Name} (h : Acts pf twice counts sets a b) (hnamed : Named pf a.1) (hn : Apart pf a.1.path n)
    (hdirs : n ∉ dirNames pf (dirname a.1.path) ∨ (a.2.fs n).node ≠ none) : b.2.fs n = a.2.fs n := by
  induction h with
  | refl => rfl
  | @tail c d hab hst ih =>
    have hpath := acts_path hab
    rcases act_apart hst (acts_named hab hnamed) (hpath ▸ hn) with hfs | ⟨io, hmk⟩
    · exact hfs.trans ih
    · rw [hmk, mkDirs_frame pf _ io _ (by rwa [hpath, ih])]
      exact ih

/-- The content of an entry apart stays, whatever directories are made. -/
theorem acts_content {n : Name} (h : Acts pf twice counts sets a b) (hnamed : Named pf a.1) (hn : Apart pf a.1.path n) :
    b.2.content n = a.2.content n := by
  induction h with
  | refl => rfl
  | @tail c d hab hst ih =>
    rw [← ih]
    rcases act_apart hst (acts_named hab hnamed) (acts_path hab ▸ hn) with hfs | ⟨io, hmk⟩
    · rw [World.content, World.content, hfs]
    · rw [hmk]
      exact mkDirs_content pf _ io _ n

/-! ## Counter and settings -/

theorem act_idx (h : Act pf twice False sets a b) : b.2.idx = a.2.idx := by
  cases h with
  | mkdirs io => simp
  | fopen mode fail _ _ ho =>
    obtain ⟨-, -, -, -, -, -, hidx, -⟩ := fopen_some ho
    exact hidx
  | count h => exact h.elim
  | copy hc => exact hc.idx
  | _ => rfl

/-- Only `++kLogIdx` changes the counter. -/
theorem acts_idx (h : Acts pf twice False sets a b) : b.2.idx = a.2.idx := by
  induction h with
  | refl => rfl
  | tail _ hst ih => exact (act_idx hst).trans ih

theorem act_settings (h : Act pf twice counts False a b) : ∃ o, b.1 = { a.1 with log := o } := by
  cases h with
  | config h => exact h.elim
  | @fflush l w s o _ => exact ⟨some (s.fflush o w).1, rfl⟩
  | @fwrite l w s bs o _ => exact ⟨some (s.fwrite bs o w).2.1, rfl⟩
  | fclose => exact ⟨none, rfl⟩
  | @fopen l w w' s => exact ⟨some s, rfl⟩
  | _ => exact ⟨_, rfl⟩

/-- The acts on the stream keep every setting. -/
theorem acts_settings (h : Acts pf twice counts False a b) : ∃ o, b.1 = { a.1 with log := o } := by
  induction h with
  | refl => exact ⟨a.1.log, rfl⟩
  | tail _ hst ih =>
    obtain ⟨o, ho⟩ := ih
    obtain ⟨o', ho'⟩ := act_settings hst
    exact ⟨o', by rw [ho', ho]⟩

/-- Before the record is counted, only the pending level is taken. -/
theorem enter_settings {l : Logger} {w : World} (io : AppendIO) (ll : LogLevel) (hpath : l.path ≠ []) :
    ∃ o, (l.enter pf io ll w).2.1 = { (l.gate ll).2 with log := o } := by
  have hsettings : ∃ o, (Logger.ensureLog pf io.reset0 io.fit { l with spinOnceLogLevel := .unchange } w).2.1 =
      { l with spinOnceLogLevel := .unchange, log := o } := @acts_settings pf _ False _ _ (ensureLog_acts io.reset0 io.fit)
  have henter := enter_enters pf io ll l w
  rw [gate_takes]
  generalize l.enter pf io ll w = e at *
  cases henter with
  | pathless h => exact absurd h hpath
  | gated | silent => exact ⟨l.log, rfl⟩
  | refused _ _ _ he | entered _ _ _ he =>
    rw [he] at hsettings
    exact hsettings

/-- So does an append. -/
theorem append5_settings {l : Logger} {w : World} (io : AppendIO) (m : Msg) (hpath : l.path ≠ []) :
    ∃ o, (l.append5 pf io m w).2.1 = { (l.gate m.logLevel).2 with log := o } := by
  unfold Logger.append5
  obtain ⟨o, ho⟩ := @enter_settings pf l w io m.logLevel hpath
  generalize l.enter pf io m.logLevel w = e at *
  obtain ⟨v, l₁, w₁⟩ := e
  obtain rfl : l₁ = _ := ho
  cases v with
  | error r => exact ⟨o, rfl⟩
  | ok lvl => exact @acts_settings pf io.closeFailed False _ _ ((writeRecord_acts io m lvl).trans (settle_acts io _))

/-- A logger without a path refuses. -/
theorem append5_pathless {l : Logger} {w : World} (io : AppendIO) (m : Msg) (hpath : l.path = []) :
    l.append5 pf io m w = (⟨-EPERM, none, none⟩, l, w) := by
  unfold Logger.append5 Logger.enter
  rw [if_pos hpath]

end CtiLog
