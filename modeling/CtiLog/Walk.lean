import CtiLog.FileUtil
/-
# The walk of a path

`resolve` takes a path back to a name without looking; the kernel walks it, and every entry it walks through has to
be a directory. Where the walk gets to its end, it ends at that name. `MkDirs` asks about the prefixes of its path in
turn, and each entry on the way to a prefix is a prefix before it.

* `components` — what stands between the slashes; `World.walk` — path lookup.
* `walk_of_directories`, `walk_blocked` — the walk passes directories and nothing else.
* `slashPrefixes_before` — the way to a prefix is made of earlier prefixes.
-/

namespace CtiLog

/-- The components of a path, without the empty ones. -/
def components (p : Str) : List Str := (p.splitOn slash).filter (· ≠ [])

/-- The entry that the components lead to from the directory `acc`, or `errno`. -/
def World.walk (w : World) : Name → List Str → Except Nat Name
  | acc, [] => .ok acc
  | acc, seg :: segs =>
    match (w.fs acc).node with
    | some .directory => w.walk (enter acc seg) segs
    | some (.regular _) => .error ENOTDIR
    | none => .error ENOENT

/-! ## Components -/

@[simp] theorem components_nil : components [] = [] := rfl

theorem components_append (p q : Str) : components (p ++ slash :: q) = components p ++ components q := by
  simp [components, List.splitOn_append_cons_self]

@[simp] theorem components_slash (p : Str) : components (p ++ [slash]) = components p := by
  rw [components_append, components_nil, List.append_nil]

theorem components_of_not_mem {p : Str} (h : slash ∉ p) : components p = if p = [] then [] else [p] := by
  unfold components
  rw [List.splitOn_eq_singleton h]
  split <;> simp_all

theorem components_withSlash (p : Str) : components (withSlash p) = components p := by
  unfold withSlash
  split
  · rfl
  · exact components_slash p

/-- Empty components lead nowhere. -/
theorem foldl_enter_filter (acc : Name) (segs : List Str) :
    (segs.filter (· ≠ [])).foldl enter acc = segs.foldl enter acc := by
  induction segs generalizing acc with
  | nil => rfl
  | cons seg segs ih =>
    by_cases h : seg = []
    · subst h
      simpa [enter] using ih acc
    · simpa [h] using ih (enter acc seg)

theorem foldl_readChar (p : Str) (acc : Name) (seg : Str) :
    enter (p.foldl readChar (acc, seg)).1 (p.foldl readChar (acc, seg)).2 =
      ((p.splitOn slash).modifyHead (seg ++ ·)).foldl enter acc := by
  have hmod : ∀ l : List Str, l.modifyHead (fun x => x) = l := fun l => by cases l <;> rfl
  induction p generalizing acc seg with
  | nil => simp
  | cons c p ih =>
    rw [List.splitOn_cons_eq_if_modifyHead, List.foldl_cons, readChar]
    by_cases hc : c = slash
    · simpa [hc, hmod] using ih (enter acc seg) []
    · simpa [hc, List.modifyHead_modifyHead, Function.comp_def] using ih acc (seg ++ [c])

/-- **A path resolves to the end of its walk.** -/
theorem resolve_eq (pf : Platform) (p : Str) : resolve pf p = (components p).foldl enter (base pf p) := by
  unfold resolve components
  rw [foldl_enter_filter]
  have hmod : ∀ l : List Str, l.modifyHead (([] : Str) ++ ·) = l := fun l => by cases l <;> rfl
  exact (foldl_readChar p (base pf p) []).trans (by rw [hmod])

/-! ## The walk -/

section
variable {w : World} {acc : Name} {segs : List Str}

theorem walk_append (w : World) (acc : Name) (segs rest : List Str) :
    w.walk acc (segs ++ rest) = (w.walk acc segs).bind fun n => w.walk n rest := by
  induction segs generalizing acc with
  | nil => rfl
  | cons seg segs ih =>
    rw [List.cons_append, World.walk, World.walk]
    cases hn : (w.fs acc).node with
    | none => rfl
    | some nd =>
      cases nd with
      | directory => exact ih (enter acc seg)
      | regular g => rfl

/-- The entries on the way are directories. -/
def Passable (w : World) (acc : Name) (segs : List Str) : Prop :=
  ∀ c, c <+: segs → c ≠ segs → (w.fs (c.foldl enter acc)).node = some .directory

/-- **A walk through directories** gets to its end. -/
theorem walk_of_open (h : Passable w acc segs) : w.walk acc segs = .ok (segs.foldl enter acc) := by
  induction segs generalizing acc with
  | nil => rfl
  | cons seg segs ih =>
    have hacc : (w.fs acc).node = some .directory := h [] List.nil_prefix (List.cons_ne_nil _ _).symm
    rw [World.walk, hacc]
    refine ih fun c hc hne => ?_
    exact h (seg :: c) (List.cons_prefix_cons.2 ⟨rfl, hc⟩) fun heq => hne (List.cons.inj heq).2

/-- And only such a walk does. -/
theorem walk_ok_iff {n : Name} : w.walk acc segs = .ok n ↔ Passable w acc segs ∧ n = segs.foldl enter acc := by
  refine ⟨fun h => ?_, fun h => h.2 ▸ walk_of_open h.1⟩
  induction segs generalizing acc with
  | nil =>
    refine ⟨fun c hc hne => absurd (List.prefix_nil.1 hc) hne, ?_⟩
    cases h
    rfl
  | cons seg segs ih =>
    rw [World.walk] at h
    cases hn : (w.fs acc).node with
    | none =>
      rw [hn] at h
      cases h
    | some nd =>
      cases nd with
      | regular g =>
        rw [hn] at h
        cases h
      | directory =>
        rw [hn] at h
        obtain ⟨hopen, hend⟩ := ih h
        refine ⟨fun c hc hne => ?_, hend⟩
        cases c with
        | nil => exact hn
        | cons seg' c =>
          obtain ⟨rfl, hc'⟩ := List.cons_prefix_cons.1 hc
          exact hopen c hc' fun heq => hne (congrArg (seg' :: ·) heq)

/-- **Nothing is behind an entry that is no directory.** -/
theorem walk_blocked {c rest : List Str} (hopen : Passable w acc c) (hrest : rest ≠ [])
    (hnode : (w.fs (c.foldl enter acc)).node ≠ some .directory) :
    w.walk acc (c ++ rest) = .error (if (w.fs (c.foldl enter acc)).node = none then ENOENT else ENOTDIR) := by
  rw [walk_append, walk_of_open hopen]
  obtain ⟨seg, segs, rfl⟩ := List.exists_cons_of_ne_nil hrest
  show w.walk (c.foldl enter acc) (seg :: segs) = _
  rw [World.walk]
  cases hn : (w.fs (c.foldl enter acc)).node with
  | none => rfl
  | some nd =>
    cases nd with
    | directory => exact absurd hn hnode
    | regular g => rfl

end

/-! ## The prefixes of a path -/

theorem mem_slashPrefixes {buf d : Str} : d ∈ slashPrefixes buf ↔ d ≠ [] ∧ d ++ [slash] <+: buf := by
  unfold slashPrefixes
  simp only [List.mem_map, List.mem_filter, List.mem_range, Bool.and_eq_true, decide_eq_true_eq, beq_iff_eq]
  constructor
  · rintro ⟨i, ⟨hi, hpos, hslash⟩, rfl⟩
    refine ⟨?_, ?_⟩
    · rw [ne_eq, List.take_eq_nil_iff]
      rintro (h | rfl)
      · omega
      · simp at hi
    · have hget : buf[i] = slash := by simpa [hi] using hslash
      rw [← hget, List.take_append_getElem hi]
      exact List.take_prefix _ _
  · rintro ⟨hne, rest, rfl⟩
    have hpos := List.length_pos_iff.2 hne
    exact ⟨d.length, ⟨by simp, hpos, by simp⟩, by simp⟩

/-- The prefixes of a path start where the path does. -/
theorem base_prefix (pf : Platform) {path d : Str} (h : d ∈ slashPrefixes (withSlash path)) :
    base pf d = base pf path := by
  obtain ⟨hne, rest, hrest⟩ := mem_slashPrefixes.1 h
  obtain ⟨c, d, rfl⟩ := List.exists_cons_of_ne_nil hne
  cases path with
  | nil =>
    have hlen := congrArg List.length hrest
    simp [withSlash] at hlen
  | cons c' path =>
    have hhead : c = c' := by
      unfold withSlash at hrest
      split at hrest
      · exact (List.cons.inj hrest).1
      · exact (List.cons.inj hrest).1
    rw [base, base, List.head?_cons, List.head?_cons, hhead]

/-- Each prefix is longer than the one before. -/
theorem slashPrefixes_pairwise (buf : Str) : (slashPrefixes buf).Pairwise fun d d' => d.length < d'.length := by
  unfold slashPrefixes
  rw [List.pairwise_map]
  have hall : ((List.range buf.length).filter fun i => decide (0 < i) && (buf[i]? == some slash)).Pairwise (· < ·) :=
    List.Pairwise.filter _ List.pairwise_lt_range
  refine hall.imp_of_mem fun {i j} hi hj hij => ?_
  have hi' := List.mem_range.1 (List.mem_filter.1 hi).1
  have hj' := List.mem_range.1 (List.mem_filter.1 hj).1
  rw [List.length_take, List.length_take]
  omega

/-- A prefix of what follows a slash. -/
theorem slashPrefixes_behind {s d p : Str} (hp : p ∈ slashPrefixes d) :
    s ++ slash :: p ∈ slashPrefixes (s ++ slash :: d) := by
  obtain ⟨-, rest, rfl⟩ := mem_slashPrefixes.1 hp
  exact mem_slashPrefixes.2 ⟨by simp, rest, by simp⟩

/-- **The way to a path** is made of its prefixes. -/
theorem exists_prefix_components (d : Str) (c : List Str) (hc : c <+: components d) (hne : c ≠ components d)
    (h0 : c ≠ []) :
    ∃ p ∈ slashPrefixes d, components p = c := by
  by_cases hs : slash ∈ d
  · obtain ⟨s, d', rfl, hs'⟩ := List.eq_append_cons_of_mem hs
    rw [components_append, components_of_not_mem hs'] at hc hne
    by_cases hnil : s = []
    · rw [if_pos hnil, List.nil_append] at hc hne
      obtain ⟨p, hp, hcp⟩ := exists_prefix_components d' c hc hne h0
      refine ⟨s ++ slash :: p, slashPrefixes_behind hp, ?_⟩
      rw [components_append, hcp, hnil, components_nil, List.nil_append]
    · rw [if_neg hnil, List.singleton_append] at hc hne
      obtain ⟨seg, c, rfl⟩ := List.exists_cons_of_ne_nil h0
      obtain ⟨rfl, hc'⟩ := List.cons_prefix_cons.1 hc
      by_cases hc0 : c = []
      · refine ⟨seg, mem_slashPrefixes.2 ⟨hnil, d', by simp⟩, ?_⟩
        rw [components_of_not_mem hs', if_neg hnil, hc0]
      · obtain ⟨p, hp, hcp⟩ := exists_prefix_components d' c hc' (fun heq => hne (congrArg (seg :: ·) heq)) hc0
        refine ⟨seg ++ slash :: p, slashPrefixes_behind hp, ?_⟩
        rw [components_append, hcp, components_of_not_mem hs', if_neg hnil, List.singleton_append]
  · -- a single component has no way to it
    rw [components_of_not_mem hs] at hc hne
    split at hc
    · exact absurd (List.prefix_nil.1 hc) h0
    · rename_i hd
      rw [if_neg hd] at hne
      obtain ⟨rest, hrest⟩ := hc
      obtain ⟨seg, c, rfl⟩ := List.exists_cons_of_ne_nil h0
      obtain ⟨rfl, hnil⟩ := List.cons.inj hrest
      rw [(List.append_eq_nil_iff.1 hnil).1] at hne
      exact absurd rfl hne
termination_by d.length
decreasing_by
  all_goals subst_vars
  all_goals simp [List.length_append]
  all_goals omega

/-- The prefixes come in turn, so the way to each of them comes before it. -/
theorem exists_before {buf d : Str} {before after : List Str} (hbuf : slashPrefixes buf = before ++ d :: after)
    {c : List Str} (hc : c <+: components d) (hne : c ≠ components d) (h0 : c ≠ []) :
    ∃ p ∈ before, components p = c := by
  obtain ⟨p, hp, hcp⟩ := exists_prefix_components d c hc hne h0
  obtain ⟨hp0, hpd⟩ := mem_slashPrefixes.1 hp
  have hlen : p.length < d.length := by simpa using hpd.length_le
  have hd : d ++ [slash] <+: buf := (mem_slashPrefixes.1 (by rw [hbuf]; simp)).2
  have hmem : p ∈ before ++ d :: after := by
    rw [← hbuf]
    exact mem_slashPrefixes.2 ⟨hp0, hpd.trans ((List.prefix_append d [slash]).trans hd)⟩
  have hsorted := slashPrefixes_pairwise buf
  rw [hbuf] at hsorted
  refine ⟨p, ?_, hcp⟩
  rcases List.mem_append.1 hmem with hmem | hmem
  · exact hmem
  · rcases List.mem_cons.1 hmem with rfl | hmem
    · omega
    · have := (List.pairwise_cons.1 (List.pairwise_append.1 hsorted).2.1).1 p hmem
      omega

/-- A prefix leads on to the prefixes behind it. -/
theorem slashPrefixes_chain (buf : Str) :
    (slashPrefixes buf).Pairwise fun d d' => components d <+: components d' := by
  refine (slashPrefixes_pairwise buf).imp_of_mem fun {d d'} hd hd' hlen => ?_
  have hp := (mem_slashPrefixes.1 hd).2
  have hp' := (List.prefix_append d' [slash]).trans (mem_slashPrefixes.1 hd').2
  obtain ⟨rest, rfl⟩ := List.prefix_of_prefix_length_le hp hp' (by simpa using hlen)
  rw [List.append_assoc, List.singleton_append, components_append]
  exact List.prefix_append _ _

/-- The components of a prefix are the first components. -/
theorem components_prefix {buf d : Str} (h : d ∈ slashPrefixes buf) : components d <+: components buf := by
  obtain ⟨-, rest, rfl⟩ := mem_slashPrefixes.1 h
  rw [List.append_assoc, List.singleton_append, components_append]
  exact List.prefix_append _ _

end CtiLog
