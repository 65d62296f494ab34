import CtiLog.Tape
/-
# What a tape holds of what it was given

A tape is given records; some it still holds, in its log or in its backup. Three statements of that,
over any kind of bytes, and the rules by which the operations of a tape keep them.

* `Tape.Respects saved empties R` — the relation `R` holds across every operation of a logger.
* `Tape.Less t t'` — `t'` holds no more than `t`: bytes may have got lost, none appeared or changed places.
* `Tape.Torn least t t'` — what is left of `t` when its writer is stopped: all that was on disk is still there, and the
  backup is only replaced where that was more than `least` bytes.
* `Tape.Drawn b g t` — nothing in log and backup but what was there or was given (`b`, `g`), in that order.
* `Tape.Whole least b rs t` — the log is made of the newest of the records `rs`, whole; the backup `b` is
  the old one or made of consecutive records, the last one cut only where `least` bytes are exceeded.
* `Tape.spoiled sep texts bs` — how many of the terminated lines of `bs` are none of `texts`; a part of a line in front
  spoils one more.
* `Tape.Durable half least n rs t` — log and backup are made of the newest of the records `rs`, of all of them
  or of more than `least` bytes, and at most `n` of them are not on disk whole; if `half`, the backup may be an
  unfinished copy of the log instead.
-/

namespace Rotating

variable {α : Type*}

namespace Tape

/-- The stream is closed: what is not written out by then is gone. -/
def cut (t : Tape α) (k : Nat) : Tape α := { t.spill k with buf := [] }

/-- The log is emptied. -/
def clear (t : Tape α) : Tape α := ⟨[], [], t.backup⟩

@[simp] theorem backup_put (t : Tape α) (bs : List α) : (t.put bs).backup = t.backup := rfl
@[simp] theorem backup_spill (t : Tape α) (k : Nat) : (t.spill k).backup = t.backup := rfl
@[simp] theorem backup_rotate (t : Tape α) (limit : Nat) : (t.rotate limit).backup = t.live.take limit := rfl

theorem put_nil (t : Tape α) : t.put [] = t := by simp [put]

theorem fit_backup_le {t : Tape α} {limit most : Nat} (h : t.backup.length ≤ most) (hlimit : limit ≤ most) :
    (t.fit limit).backup.length ≤ most := by
  unfold Tape.fit
  split
  · rw [backup_rotate]
    exact (List.length_take_le _ _).trans hlimit
  · exact h

theorem live_cut (t : Tape α) (k : Nat) : (t.cut k).live = t.disk ++ t.buf.take k := by simp [cut, spill, live]

/-- A close that writes everything out loses nothing. -/
theorem live_cut_all (t : Tape α) {k : Nat} (h : t.buf.length ≤ k) : (t.cut k).live = t.live := by
  rw [live_cut, List.take_of_length_le h, live]

/-! ## Operations -/

/-- Closed under what operations do: they write out, close, copy the log to the backup (as far as `saved` says), and
empty it if `empties`. -/
structure Respects (saved : List α → List α → Prop) (empties : Prop) (R : Tape α → Tape α → Prop) : Prop where
  refl : ∀ t, R t t
  trans : ∀ {t u v}, R t u → R u v → R t v
  spill : ∀ t k, R t (t.spill k)
  cut : ∀ t k, R t (t.cut k)
  save : ∀ t b, saved b t.disk → R t { t with backup := b }
  clear : ∀ t, empties → R t t.clear

/-! ## Losses -/

structure Less (t t' : Tape α) : Prop where
  live : t'.live.Sublist t.live
  backup : t'.backup = t.backup ∨ t'.backup.Sublist t.live

namespace Less

variable {t u v : Tape α}

theorem refl (t : Tape α) : Less t t := ⟨List.Sublist.refl _, .inl rfl⟩

theorem trans (h : Less t u) (h' : Less u v) : Less t v := by
  refine ⟨h'.live.trans h.live, ?_⟩
  rcases h'.backup with hv | hv
  · rw [hv]
    exact h.backup
  · exact .inr (hv.trans h.live)

/-- Nothing is lost where log and backup stay. -/
theorem of_eq (hlive : u.live = t.live) (hbackup : u.backup = t.backup) : Less t u := by
  refine ⟨?_, .inl hbackup⟩
  rw [hlive]

theorem respects : Respects (α := α) List.Sublist True Less where
  refl := .refl
  trans := .trans
  spill t k := .of_eq (t.live_spill k) rfl
  cut t k := by
    refine ⟨?_, .inl rfl⟩
    rw [live_cut, Tape.live]
    exact (List.take_sublist k t.buf).append_left t.disk
  save t b hb := ⟨List.Sublist.refl _, .inr (hb.trans (List.sublist_append_left t.disk t.buf))⟩
  clear t _ := ⟨List.nil_sublist _, .inl rfl⟩

end Less

/-! ## Interruptions -/

structure Torn (least : Nat) (t t' : Tape α) : Prop where
  disk : t.disk <+: t'.disk
  live : t'.live <+: t.live
  backup : t'.backup = t.backup ∨ t'.backup <+: t'.disk ∧ least < t'.disk.length

namespace Torn

variable {t u v : Tape α} {least : Nat}

theorem refl (t : Tape α) : Torn least t t := ⟨List.prefix_rfl, List.prefix_rfl, .inl rfl⟩

theorem trans (h : Torn least t u) (h' : Torn least u v) : Torn least t v := by
  refine ⟨h.disk.trans h'.disk, h'.live.trans h.live, ?_⟩
  rcases h'.backup with hv | hv
  · rw [hv]
    exact h.backup.imp id fun hu => ⟨hu.1.trans h'.disk, hu.2.trans_le h'.disk.length_le⟩
  · exact .inr hv

theorem respects : Respects (α := α) (fun b L => b <+: L ∧ least < L.length) False (Torn least) where
  refl := .refl
  trans := .trans
  spill t k := by
    refine ⟨List.prefix_append _ _, ?_, .inl rfl⟩
    rw [live_spill]
  cut t k := by
    refine ⟨List.prefix_append _ _, ?_, .inl rfl⟩
    rw [live_cut, Tape.live]
    exact List.prefix_append_right_inj t.disk |>.2 (List.take_prefix k t.buf)
  save t b hb := ⟨List.prefix_rfl, List.prefix_rfl, .inr hb⟩
  clear _ h := h.elim

end Torn

/-! ## Bytes -/

structure Drawn (b g : List α) (t : Tape α) : Prop where
  live : t.live.Sublist g
  backup : t.backup = b ∨ t.backup.Sublist g

namespace Drawn

variable {b g : List α} {t u : Tape α}

theorem start (t : Tape α) : Drawn t.backup t.live t := ⟨List.Sublist.refl _, .inl rfl⟩

theorem mono {g' : List α} (h : Drawn b g t) (hg : g.Sublist g') : Drawn b g' t :=
  ⟨h.live.trans hg, h.backup.imp_right fun hb => hb.trans hg⟩

theorem less (h : Drawn b g t) (hu : Less t u) : Drawn b g u := by
  refine ⟨hu.live.trans h.live, ?_⟩
  rcases hu.backup with hb | hb
  · rw [hb]
    exact h.backup
  · exact .inr (hb.trans h.live)

/-- What was given may arrive in part. -/
theorem given {bs cs : List α} (h : Drawn b g t) (hlive : u.live = t.live ++ bs) (hbackup : u.backup = t.backup)
    (hcs : bs.Sublist cs) : Drawn b (g ++ cs) u := by
  constructor
  · rw [hlive]
    exact h.live.append hcs
  · rw [hbackup]
    exact h.backup.imp id fun hb => hb.trans (List.sublist_append_left g cs)

end Drawn

/-! ## Records -/

structure Whole (least : Nat) (b : List α) (given : List (List α)) (t : Tape α) : Prop where
  live : ∃ rs, rs <:+ given ∧ t.live = rs.flatten
  backup : t.backup = b ∨ ∃ rs n, rs <:+: given ∧ least ≤ n ∧ t.backup = rs.flatten.take n

namespace Whole

variable {least : Nat} {b r : List α} {given : List (List α)} {t u : Tape α}

/-- At the start the log is one record. -/
theorem start (least : Nat) (t : Tape α) : Whole least t.backup [t.live] t :=
  ⟨⟨[t.live], List.suffix_rfl, by simp⟩, .inl rfl⟩

theorem of_eq (h : Whole least b given t) (hlive : u.live = t.live) (hbackup : u.backup = t.backup) :
    Whole least b given u := by
  constructor
  · rw [hlive]
    exact h.live
  · rw [hbackup]
    exact h.backup

theorem clear (h : Whole least b given t) (hlive : u.live = []) (hbackup : u.backup = t.backup) :
    Whole least b given u := by
  constructor
  · exact ⟨[], List.nil_suffix, hlive⟩
  · rw [hbackup]
    exact h.backup

/-- A record that arrives whole. -/
theorem put (h : Whole least b given t) (hlive : u.live = t.live ++ r) (hbackup : u.backup = t.backup) :
    Whole least b (given ++ [r]) u := by
  constructor
  · obtain ⟨rs, hrs, hl⟩ := h.live
    refine ⟨rs ++ [r], List.suffix_append_self_iff.2 hrs, ?_⟩
    simp [hlive, hl]
  · rw [hbackup]
    apply h.backup.imp id
    rintro ⟨rs, n, hrs, hn, hb⟩
    exact ⟨rs, n, hrs.trans (List.prefix_append given [r]).isInfix, hn, hb⟩

/-- **A rotation** moves the records of the log to the backup. -/
theorem rotate {limit : Nat} (h : Whole least b given t) (hlimit : least ≤ limit) :
    Whole least b given (t.rotate limit) := by
  obtain ⟨rs, hrs, hl⟩ := h.live
  refine ⟨⟨[], List.nil_suffix, rfl⟩, .inr ⟨rs, limit, hrs.isInfix, hlimit, ?_⟩⟩
  rw [backup_rotate, hl]

theorem fit {limit : Nat} (h : Whole least b given t) (hlimit : least ≤ limit) :
    Whole least b given (t.fit limit) := by
  unfold Tape.fit
  split
  · exact h.rotate hlimit
  · exact h

end Whole

/-! ## Lines -/

/-- Texts, each with its terminator. -/
def lines (sep : α) (texts : List (List α)) : List (List α) := texts.map (· ++ [sep])

theorem lines_append (sep : α) (as bs : List (List α)) : lines sep (as ++ bs) = lines sep as ++ lines sep bs :=
  List.map_append

/-- Terminated texts without a terminator inside are read back. -/
theorem splitOn_lines [BEq α] [LawfulBEq α] {sep : α} {texts : List (List α)} (h : ∀ s ∈ texts, sep ∉ s) :
    (lines sep texts).flatten.splitOn sep = texts ++ [[]] := by
  induction texts with
  | nil => simp [lines]
  | cons s texts ih =>
    have hs := h s List.mem_cons_self
    have hrest : (lines sep (s :: texts)).flatten = s ++ sep :: (lines sep texts).flatten := by simp [lines]
    rw [hrest, List.splitOn_append_cons_self_of_not_mem hs, ih fun x hx => h x (List.mem_cons_of_mem s hx),
      List.cons_append]

/-- **A log of whole records is read back line by line**: the newest of the texts it was given. -/
theorem Whole.splitOn [BEq α] [LawfulBEq α] {least : Nat} {b : List α} {sep : α} {first texts : List (List α)}
    {t : Tape α}
    (h : Whole least b ((lines sep first).flatten :: lines sep texts) t) (hclean : ∀ s ∈ first ++ texts, sep ∉ s) :
    ∃ ts, ts <:+ first ++ texts ∧ t.live.splitOn sep = ts ++ [[]] := by
  obtain ⟨rs, hrs, hlive⟩ := h.live
  have hread : ∀ ts, ts <:+ first ++ texts → t.live = (lines sep ts).flatten →
      ∃ ts, ts <:+ first ++ texts ∧ t.live.splitOn sep = ts ++ [[]] := by
    intro ts hts heq
    refine ⟨ts, hts, ?_⟩
    rw [heq, splitOn_lines fun s hs => hclean s (hts.subset hs)]
  -- either the first lines are still there, or the records left are lines of `texts`
  rcases List.suffix_cons_iff.1 hrs with rfl | hrs
  · apply hread (first ++ texts) List.suffix_rfl
    rw [hlive, lines_append, List.flatten_append, List.flatten_cons]
  · obtain ⟨pre, hpre⟩ := hrs
    obtain ⟨as, bs, rfl, -, hbs⟩ := List.map_eq_append_iff.1 hpre.symm
    apply hread bs
    · exact (List.suffix_append as bs).trans (List.suffix_append first (as ++ bs))
    · rw [hlive, ← hbs]
      rfl

/-- The beginning of some lines: whole lines and a part of one. -/
theorem prefix_lines {sep : α} {ts : List (List α)} {p : List α} (hclean : ∀ s ∈ ts, sep ∉ s)
    (hp : p <+: (lines sep ts).flatten) :
    ∃ as tail, p = (lines sep as).flatten ++ tail ∧ (∀ s ∈ as, s ∈ ts) ∧ sep ∉ tail := by
  induction ts generalizing p with
  | nil =>
    obtain rfl : p = [] := List.prefix_nil.1 hp
    exact ⟨[], [], rfl, by simp, by simp⟩
  | cons s ts ih =>
    have hs := hclean s List.mem_cons_self
    have hcons : (lines sep (s :: ts)).flatten = (s ++ [sep]) ++ (lines sep ts).flatten := by simp [lines]
    rw [hcons] at hp
    rcases List.prefix_or_prefix_of_prefix hp (List.prefix_append _ _) with h | ⟨q, rfl⟩
    · rcases List.prefix_concat_iff.1 h with rfl | h
      · exact ⟨[s], [], by simp [lines], by simp, by simp⟩
      · exact ⟨[], p, rfl, by simp, fun hmem => hs (h.subset hmem)⟩
    · obtain ⟨as, tail, rfl, has, htail⟩ :=
        ih (fun x hx => hclean x (List.mem_cons_of_mem s hx)) ((List.prefix_append_right_inj _).1 hp)
      refine ⟨s :: as, tail, by simp [lines], ?_, htail⟩
      rintro x (_ | ⟨_, hx⟩)
      · exact List.mem_cons_self
      · exact List.mem_cons_of_mem s (has x hx)

/-- Lines, all of them of `texts`. -/
def OfLines (sep : α) (texts : List (List α)) (bs : List α) : Prop :=
  ∃ ts, (∀ s ∈ ts, s ∈ texts) ∧ bs = (lines sep ts).flatten

/-- The beginning of such lines. -/
def Begins (sep : α) (texts : List (List α)) (bs : List α) : Prop :=
  ∃ ts, (∀ s ∈ ts, s ∈ texts) ∧ bs <+: (lines sep ts).flatten

theorem OfLines.begins {sep : α} {texts : List (List α)} {bs : List α} (h : OfLines sep texts bs) :
    Begins sep texts bs := by
  obtain ⟨ts, hts, rfl⟩ := h
  exact ⟨ts, hts, List.prefix_rfl⟩

theorem ofLines_of_mem {sep : α} {texts : List (List α)} {r : List α} (h : r ∈ lines sep texts) :
    OfLines sep texts r := by
  obtain ⟨s, hs, rfl⟩ := List.mem_map.1 h
  exact ⟨[s], by simpa using hs, by simp [lines]⟩

theorem begins_of_mem {sep : α} {texts rs : List (List α)} {p : List α} (h : ∀ r ∈ rs, r ∈ lines sep texts)
    (hp : p <+: rs.flatten) : Begins sep texts p := by
  have hlines : ∃ ts, (∀ s ∈ ts, s ∈ texts) ∧ rs = lines sep ts := by
    clear hp
    induction rs with
    | nil => exact ⟨[], by simp, rfl⟩
    | cons r rs ih =>
      obtain ⟨ts, hts, rfl⟩ := ih fun x hx => h x (List.mem_cons_of_mem r hx)
      obtain ⟨s, hs, rfl⟩ := List.mem_map.1 (h r List.mem_cons_self)
      exact ⟨s :: ts, List.forall_mem_cons.2 ⟨hs, hts⟩, rfl⟩
  obtain ⟨ts, hts, rfl⟩ := hlines
  exact ⟨ts, hts, hp⟩

/-! ## Lines that are spoiled -/

section
variable [DecidableEq α] {sep : α} {texts ts : List (List α)} {bs p q : List α}

/-- How many of the terminated lines of `bs` are none of `texts`. -/
def spoiled (sep : α) (texts : List (List α)) (bs : List α) : Nat := (bs.splitOn sep).dropLast.countP (· ∉ texts)

theorem spoiled_of_not_mem (hp : sep ∉ p) : spoiled sep texts p = 0 := by
  unfold spoiled
  rw [List.splitOn_eq_singleton hp]
  rfl

theorem splitOn_append (hp : sep ∉ p) : (p ++ bs).splitOn sep = (bs.splitOn sep).modifyHead (p ++ ·) := by
  induction p with
  | nil =>
    show bs.splitOn sep = _
    cases bs.splitOn sep <;> rfl
  | cons a p ih =>
    obtain ⟨ha, hp⟩ : sep ≠ a ∧ sep ∉ p := by simpa using hp
    rw [List.cons_append, List.splitOn_cons_eq_if_modifyHead, if_neg (by simpa using ha.symm), ih hp,
      List.modifyHead_modifyHead]
    rfl

theorem dropLast_modifyHead {β : Type*} (f : β → β) (xs : List β) :
    (xs.modifyHead f).dropLast = xs.dropLast.modifyHead f := by
  rcases xs with _ | ⟨x, _ | ⟨y, xs⟩⟩ <;> rfl

/-- Whole lines in front. -/
theorem spoiled_lines (hts : ∀ s ∈ ts, s ∈ texts) (hclean : ∀ s ∈ ts, sep ∉ s) :
    spoiled sep texts ((lines sep ts).flatten ++ bs) = spoiled sep texts bs := by
  induction ts with
  | nil => rfl
  | cons s ts ih =>
    have hcons : (lines sep (s :: ts)).flatten ++ bs = s ++ sep :: ((lines sep ts).flatten ++ bs) := by simp [lines]
    have hs : s ∈ texts := hts s List.mem_cons_self
    have hrest := ih (fun x hx => hts x (List.mem_cons_of_mem s hx)) fun x hx => hclean x (List.mem_cons_of_mem s hx)
    unfold spoiled at hrest ⊢
    rw [hcons, List.splitOn_append_cons_self_of_not_mem (hclean s List.mem_cons_self),
      List.dropLast_cons_of_ne_nil (List.splitOn_ne_nil _ _), List.countP_cons_of_neg (by simpa using hs)]
    exact hrest

/-- A part of a line in front spoils one line. -/
theorem spoiled_append_le (hp : sep ∉ p) : spoiled sep texts (p ++ bs) ≤ spoiled sep texts bs + 1 := by
  unfold spoiled
  rw [splitOn_append hp, dropLast_modifyHead]
  cases (bs.splitOn sep).dropLast with
  | nil => exact Nat.zero_le _
  | cons head tail =>
    rw [List.modifyHead_cons, List.countP_cons, List.countP_cons]
    split <;> split <;> omega

/-- The beginning has no more lines. -/
theorem spoiled_mono (h : p <+: q) : spoiled sep texts p ≤ spoiled sep texts q := by
  have hlines : (p.splitOn sep).dropLast <+: (q.splitOn sep).dropLast := by
    obtain ⟨r, rfl⟩ := h
    induction p with
    | nil => exact List.nil_prefix
    | cons a p ih =>
      rw [List.cons_append, List.splitOn_cons_eq_if_modifyHead, List.splitOn_cons_eq_if_modifyHead]
      split
      · rw [List.dropLast_cons_of_ne_nil (List.splitOn_ne_nil _ _),
          List.dropLast_cons_of_ne_nil (List.splitOn_ne_nil _ _)]
        exact (List.prefix_cons_inj _).2 ih
      · rw [dropLast_modifyHead, dropLast_modifyHead]
        obtain ⟨rest, hrest⟩ := ih
        rw [← hrest]
        cases (p.splitOn sep).dropLast with
        | nil => exact List.nil_prefix
        | cons head tail => exact ⟨rest, rfl⟩
  exact hlines.sublist.countP_le

theorem spoiled_begins (h : Begins sep texts p) (hclean : ∀ s ∈ texts, sep ∉ s) : spoiled sep texts p = 0 := by
  obtain ⟨ts, hts, hp⟩ := h
  obtain ⟨as, tail, rfl, has, htail⟩ := prefix_lines (fun s hs => hclean s (hts s hs)) hp
  rw [spoiled_lines (fun s hs => hts s (has s hs)) fun s hs => hclean s (hts s (has s hs)), spoiled_of_not_mem htail]

/-- Lines and beginnings of lines, one after the other: each of the latter spoils at most one line. -/
theorem spoiled_flatten_le [DecidablePred (OfLines sep texts)] {ps : List (List α)} (hps : ∀ p ∈ ps, Begins sep texts p)
    (hclean : ∀ s ∈ texts, sep ∉ s) :
    spoiled sep texts (ps.flatten ++ bs) ≤ spoiled sep texts bs + ps.countP (¬ OfLines sep texts ·) := by
  induction ps with
  | nil => exact le_rfl
  | cons p ps ih =>
    have hrest := ih fun q hq => hps q (List.mem_cons_of_mem p hq)
    rw [List.flatten_cons, List.append_assoc, List.countP_cons]
    by_cases hp : OfLines sep texts p
    · obtain ⟨ts, hts, rfl⟩ := hp
      rw [spoiled_lines hts fun s hs => hclean s (hts s hs)]
      exact hrest.trans (Nat.add_le_add_left (Nat.le_add_right _ _) _)
    · obtain ⟨ts, hts, hbeginning⟩ := hps p List.mem_cons_self
      obtain ⟨as, tail, rfl, has, htail⟩ := prefix_lines (fun s hs => hclean s (hts s hs)) hbeginning
      have hone : spoiled sep texts (tail ++ (ps.flatten ++ bs)) ≤ spoiled sep texts (ps.flatten ++ bs) + 1 :=
        spoiled_append_le htail
      rw [List.append_assoc, spoiled_lines (fun s hs => hts s (has s hs)) fun s hs => hclean s (hts s (has s hs)),
        if_pos (by simpa using hp)]
      omega

end

/-! ## What a crash leaves -/

/-- The backup is made of the records `front`, and none was dropped before them, or it is longer than `least`. With
`half` it may be a copy of a log that is longer than `least`, or a part of one. -/
def Saved (half : Prop) (least : Nat) (front : List (List α)) (all : Prop) (t : Tape α) : Prop :=
  t.backup = front.flatten ∧ (all ∨ least < t.backup.length) ∨
    half ∧ front = [] ∧ t.backup <+: t.disk ∧ least < t.disk.length

/-- Backup, log and what of the log waits in the buffer are made of consecutive records, the newest ones; at
most `n` of them have not reached the disk whole. -/
def Durable (half : Prop) (least n : Nat) (given : List (List α)) (t : Tape α) : Prop :=
  ∃ front back late, front ++ back ++ late <:+ given ∧ late.length ≤ n ∧
    t.Saved half least front (front ++ back ++ late = given) ∧ t.live = (back ++ late).flatten ∧ t.buf <:+ late.flatten

theorem Saved.mono {half all all' : Prop} {least : Nat} {front : List (List α)} {t u : Tape α}
    (h : t.Saved half least front all) (hall : all → all') (hbackup : u.backup = t.backup) (hdisk : t.disk <+: u.disk) :
    u.Saved half least front all' := by
  unfold Saved
  rw [hbackup]
  apply h.imp
  · exact And.imp_right (Or.imp_left hall)
  · exact fun hb => ⟨hb.1, hb.2.1, hb.2.2.1.trans hdisk, hb.2.2.2.trans_le hdisk.length_le⟩

namespace Durable

variable {half : Prop} {least n m limit : Nat} {r : List α} {given : List (List α)} {t u : Tape α}

theorem start (n : Nat) (h : t.buf = []) : Durable half least n [t.backup, t.live] t := by
  refine ⟨[t.backup], [t.live], [], List.suffix_rfl, Nat.zero_le n, .inl ⟨by simp, .inl rfl⟩, by simp, ?_⟩
  rw [h]
  exact List.nil_suffix

theorem mono (h : Durable half least n given t) (hn : n ≤ m) : Durable half least m given t := by
  obtain ⟨front, back, late, hsuffix, hlate, hrest⟩ := h
  exact ⟨front, back, late, hsuffix, hlate.trans hn, hrest⟩

theorem put (h : Durable half least n given t) : Durable half least (n + 1) (given ++ [r]) (t.put r) := by
  obtain ⟨front, back, late, hsuffix, hlate, hsaved, hlive, hbuf⟩ := h
  refine ⟨front, back, late ++ [r], ?_, ?_, hsaved.mono (fun hall => ?_) rfl List.prefix_rfl, ?_, ?_⟩
  · rw [← List.append_assoc]
    exact List.suffix_append_self_iff.2 hsuffix
  · simpa using hlate
  · rw [← hall, List.append_assoc (front ++ back)]
  · simp [hlive]
  · rw [buf_put]
    simpa using List.suffix_append_self_iff.2 hbuf

theorem spill (h : Durable half least n given t) (k : Nat) : Durable half least n given (t.spill k) := by
  obtain ⟨front, back, late, hsuffix, hlate, hsaved, hlive, hbuf⟩ := h
  refine ⟨front, back, late, hsuffix, hlate, ?_, ?_, (List.drop_suffix k t.buf).trans hbuf⟩
  · exact hsaved.mono id rfl (List.prefix_append _ _)
  · rw [live_spill]
    exact hlive

theorem flush (h : Durable half least n given t) (m : Nat) : Durable half least m given t.flush := by
  obtain ⟨front, back, late, hsuffix, -, hsaved, hlive, -⟩ := h
  refine ⟨front, back ++ late, [], ?_, Nat.zero_le m, ?_, ?_, List.nil_suffix⟩
  · simpa using hsuffix
  · exact hsaved.mono (by simp) rfl (List.prefix_append _ _)
  · rw [live_flush]
    simpa using hlive

/-- A rotation that saves the whole log, where that is longer than `least`. -/
theorem rotate (h : Durable half least n given t) (hdue : least < t.disk.length) (hle : t.live.length ≤ limit)
    (m : Nat) :
    Durable half least m given (t.rotate limit) := by
  obtain ⟨front, back, late, hsuffix, -, -, hlive, -⟩ := h
  refine ⟨back ++ late, [], [], ?_, Nat.zero_le m, .inl ⟨?_, .inr ?_⟩, rfl, List.nil_suffix⟩
  · rw [List.append_assoc] at hsuffix
    simpa using (List.suffix_append front (back ++ late)).trans hsuffix
  · rw [backup_rotate, List.take_of_length_le hle]
    exact hlive
  · rw [backup_rotate, List.take_of_length_le hle, length_live]
    exact hdue.trans_le (Nat.le_add_right _ _)

theorem fit (h : Durable half (limit / 2) n given t) (hle : t.live.length ≤ limit) :
    Durable half (limit / 2) n given (t.fit limit) := by
  unfold Tape.fit
  split
  · rename_i hdue
    exact h.rotate hdue hle n
  · exact h

/-- What is on disk: whole records, and a part of those in the buffer. -/
theorem disk_eq {back late : List (List α)} (hlive : t.live = (back ++ late).flatten) (hbuf : t.buf <:+ late.flatten) :
    ∃ part, t.disk = back.flatten ++ part ∧ part ++ t.buf = late.flatten := by
  obtain ⟨part, hpart⟩ := hbuf
  refine ⟨part, ?_, hpart⟩
  rw [live, List.flatten_append, ← hpart, ← List.append_assoc] at hlive
  exact List.append_cancel_right hlive

/-- **After a crash** the buffer is gone: backup and disk hold consecutive records and a part of the next,
of which at most `n` are missing. -/
theorem crash (h : Durable half least n given t) : ∃ front back late part, front ++ back ++ late <:+ given ∧
    late.length ≤ n ∧ part <+: late.flatten ∧ t.Saved half least front (front ++ back ++ late = given) ∧
    t.disk = back.flatten ++ part := by
  obtain ⟨front, back, late, hsuffix, hlate, hsaved, hlive, hbuf⟩ := h
  obtain ⟨part, hdisk, hpart⟩ := disk_eq hlive hbuf
  exact ⟨front, back, late, part, hsuffix, hlate, ⟨t.buf, hpart⟩, hsaved, hdisk⟩

/-- **A crash in the middle of something**: some of `rs` may have been put, and the backup may be an unfinished copy. -/
theorem torn (h : Durable half least n given t) {rs : List (List α)} {bs : List α} (hbs : bs <+: rs.flatten)
    (hu : Torn least (t.put bs) u) : ∃ front back late part, front ++ back ++ late <:+ given ++ rs ∧
      late.length ≤ n + rs.length ∧ part <+: late.flatten ∧
      u.Saved True least front (front ++ back ++ late = given ++ rs) ∧ u.disk = back.flatten ++ part := by
  obtain ⟨front, back, late, hsuffix, hlate, hsaved, hlive, hbuf⟩ := h
  obtain ⟨part, hdisk, -⟩ := disk_eq hlive hbuf
  obtain ⟨more, hmore⟩ : t.disk <+: u.disk := hu.disk
  have hmore' : u.disk = back.flatten ++ (part ++ more) := by
    rw [← hmore, hdisk, List.append_assoc]
  have hlost : late.length + rs.length ≤ n + rs.length := Nat.add_le_add_right hlate _
  have hpart : part ++ more <+: (late ++ rs).flatten := by
    have hlong : u.disk <+: (t.put bs).live := (List.prefix_append u.disk u.buf).trans hu.live
    rw [live_put, hlive, hmore', List.flatten_append, List.append_assoc, List.prefix_append_right_inj] at hlong
    rw [List.flatten_append]
    exact hlong.trans (List.prefix_append_right_inj _ |>.2 hbs)
  have hnewest : front ++ back ++ (late ++ rs) <:+ given ++ rs := by
    rw [← List.append_assoc]
    exact List.suffix_append_self_iff.2 hsuffix
  rcases hu.backup with hb | hb
  · refine ⟨front, back, late ++ rs, part ++ more, hnewest, by simpa using hlost, hpart, ?_, hmore'⟩
    have hall : front ++ back ++ late = given → front ++ back ++ (late ++ rs) = given ++ rs := fun hall => by
      rw [← hall, List.append_assoc (front ++ back)]
    have hunfinished : t.Saved True least front (front ++ back ++ late = given) :=
      hsaved.imp_right fun h => ⟨trivial, h.2⟩
    exact hunfinished.mono hall hb hu.disk
  · -- the backup is new: what it held is dropped
    refine ⟨[], back, late ++ rs, part ++ more, ?_, by simpa using hlost, hpart, .inr ⟨trivial, rfl, hb⟩, hmore'⟩
    rw [List.append_assoc] at hnewest
    exact (List.suffix_append front _).trans hnewest

end Durable

end Tape

end Rotating
