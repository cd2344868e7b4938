import ShaderLink.Resolve.Map

/-!
# How a reference resolves

A reference `r` is matched against every import entry of a resolve map. An entry passes on what
`r` leaves after the entry's import path: all of `r` when the import path is empty (a wildcard
without alias), else the rest after their longest overlap (`overlapTail?`). The entry is viable
when its export path followed by that rest is a recorded export, and the segments of `r` that
the import path covered are its overlap (`ResolveMap.Viable`).

`resolve` keeps the viable entries of the longest overlap (`ResolveMap.Longest`). When they all
name one target (`ResolveMap.Agree`) it finds that target, with the export path and arguments of
the first of them (`ResolveMap.FirstAt`); when two of them name different targets it is
ambiguous (`ResolveMap.Disagree`); and when no entry is viable the reference stays unresolved.

Each outcome is characterized by these predicates alone (`resolve_eq_unresolved_iff`,
`resolve_eq_found_iff`, `resolve_eq_ambiguous_iff`), and only the export path and the arguments
of a found target depend on where the entries stand. So the kind of outcome and the target do not
depend on the order of the entries (`resolve_perm`), and an entry of a longer overlap always
wins over shorter ones, as an explicit import does over a wildcard without alias.

The running code computes the longest overlap first and then filters the viable entries by it;
`bestCandidates` names that filtered list, from which the three outcomes are read.
-/

namespace ShaderLink

/-- What an import entry passes on of a reference `r`: all of `r` when it has no import path,
else what follows the longest overlap of its import path with `r`. -/
def ImportEntry.Passes (e : ImportEntry) (r rest : List String) : Prop :=
  e.importPath = [] ∧ rest = r ∨ overlapTail? e.importPath r = some rest

theorem overlapTail?_nil {α : Type} [BEq α] (b : List α) : overlapTail? ([] : List α) b = none := by
  simp [overlapTail?, overlapLengths]

theorem ImportEntry.passes_iff (e : ImportEntry) (r rest : List String) :
    (if e.importPath.isEmpty then some r else overlapTail? e.importPath r) = some rest ↔
      e.Passes r rest := by
  unfold Passes
  cases h : e.importPath with
  | nil => simp [overlapTail?_nil, eq_comm]
  | cons x xs => simp

/-- An entry passes on at most one rest. -/
theorem ImportEntry.Passes.unique {e : ImportEntry} {r rest rest' : List String}
    (h : e.Passes r rest) (h' : e.Passes r rest') : rest = rest' := by
  rw [← e.passes_iff] at h h'
  exact Option.some.inj (h.symm.trans h')

namespace ResolveMap

variable (m : ResolveMap) (r : List String)

/-- Entry `e` is viable for the reference `r` with overlap `k`: it passes on `rest`, after the
`k` segments of `r` its import path covered, and its export path followed by `rest` is `path`,
recorded as naming `t`. -/
def Viable (e : ImportEntry) (k : Nat) (path : List String) (t : ExportTarget) : Prop :=
  ∃ rest, e.Passes r rest ∧ k = r.length - rest.length ∧ path = e.exportPath ++ rest ∧
    m.lookup? path = some t

/-- `k` is the longest overlap of an entry viable for `r`. -/
def Longest (k : Nat) : Prop :=
  (∃ e ∈ m.paths.toList, ∃ path t, m.Viable r e k path t) ∧
    ∀ e ∈ m.paths.toList, ∀ k' path t, m.Viable r e k' path t → k' ≤ k

/-- Every entry viable for `r` with overlap `k` names `t`. -/
def Agree (k : Nat) (t : ExportTarget) : Prop :=
  ∀ e ∈ m.paths.toList, ∀ path t', m.Viable r e k path t' → t' = t

/-- Two entries viable for `r` with overlap `k` name different targets. -/
def Disagree (k : Nat) : Prop :=
  ∃ e₁ ∈ m.paths.toList, ∃ e₂ ∈ m.paths.toList, ∃ path₁ t₁ path₂ t₂,
    m.Viable r e₁ k path₁ t₁ ∧ m.Viable r e₂ k path₂ t₂ ∧ t₁ ≠ t₂

/-- The first entry viable for `r` with overlap `k` gives the export path `path`, naming `t`, and
carries the arguments `args`. -/
def FirstAt (k : Nat) (path : List String) (t : ExportTarget) (args : Option (List String)) :
    Prop :=
  ∃ pre e post, m.paths.toList = pre ++ e :: post ∧ m.Viable r e k path t ∧ args = e.args ∧
    ∀ e' ∈ pre, ∀ path' t', ¬ m.Viable r e' k path' t'

variable {m r}

/-- An entry is viable in at most one way. -/
theorem Viable.unique {e : ImportEntry} {k k' : Nat} {path path' : List String}
    {t t' : ExportTarget} (h : m.Viable r e k path t) (h' : m.Viable r e k' path' t') :
    k = k' ∧ path = path' ∧ t = t' := by
  obtain ⟨rest, hp, rfl, rfl, ht⟩ := h
  obtain ⟨rest', hp', rfl, rfl, ht'⟩ := h'
  obtain rfl := hp.unique hp'
  exact ⟨rfl, rfl, Option.some.inj (ht.symm.trans ht')⟩

/-- Viability reads the map only through its exports. -/
theorem viable_congr {m' : ResolveMap} (h : m'.exports = m.exports) {e : ImportEntry} {k : Nat}
    {path : List String} {t : ExportTarget} : m'.Viable r e k path t ↔ m.Viable r e k path t := by
  have hl : m'.lookup? = m.lookup? := by
    funext p
    simp only [lookup?, h]
  simp only [Viable, hl]

theorem Longest.unique {k k' : Nat} (h : m.Longest r k) (h' : m.Longest r k') : k = k' := by
  obtain ⟨⟨e, he, p, t, hv⟩, hmax⟩ := h
  obtain ⟨⟨e', he', p', t', hv'⟩, hmax'⟩ := h'
  exact Nat.le_antisymm (hmax' e he k p t hv) (hmax e' he' k' p' t' hv')

/-! ### The candidates of the running code -/

variable (m r) in
/-- The candidate an entry makes of the reference: its overlap, target, export path and
arguments, as `viableMatches` computes them. -/
def candidate (e : ImportEntry) : Option (Nat × ExportTarget × List String × Option (List String)) :=
  (if e.importPath.isEmpty then some r else overlapTail? e.importPath r).bind fun rest =>
    (m.lookup? (e.exportPath ++ rest)).map fun t =>
      (r.length - rest.length, t, e.exportPath ++ rest, e.args)

theorem viableMatches_eq : m.viableMatches r = m.paths.toList.filterMap (m.candidate r) := rfl

theorem candidate_eq_some_iff {e : ImportEntry} {k : Nat} {t : ExportTarget} {path : List String}
    {args : Option (List String)} :
    m.candidate r e = some (k, t, path, args) ↔ m.Viable r e k path t ∧ args = e.args := by
  simp only [candidate, Option.bind_eq_some_iff, Option.map_eq_some_iff, Prod.mk.injEq,
    ImportEntry.passes_iff, Viable]
  constructor
  · rintro ⟨rest, hp, t', ht', rfl, rfl, rfl, rfl⟩
    exact ⟨⟨rest, hp, rfl, rfl, ht'⟩, rfl⟩
  · rintro ⟨⟨rest, hp, rfl, rfl, ht⟩, rfl⟩
    exact ⟨rest, hp, t, ht, rfl, rfl, rfl, rfl⟩

/-- The largest first component of a list of candidates, starting from `init`. -/
theorem le_foldl_max {β : Type} (l : List (Nat × β)) (init : Nat) :
    init ≤ l.foldl (fun b x => max b x.1) init ∧
      ∀ x ∈ l, x.1 ≤ l.foldl (fun b x => max b x.1) init := by
  induction l generalizing init with
  | nil => simp
  | cons y l ih =>
    obtain ⟨hinit, hl⟩ := ih (max init y.1)
    refine ⟨Nat.le_trans (Nat.le_max_left _ _) hinit, fun x hx => ?_⟩
    rcases List.mem_cons.1 hx with rfl | hx
    · exact Nat.le_trans (Nat.le_max_right _ _) hinit
    · exact hl x hx

theorem foldl_max_eq_or_mem {β : Type} (l : List (Nat × β)) (init : Nat) :
    l.foldl (fun b x => max b x.1) init = init ∨
      ∃ x ∈ l, x.1 = l.foldl (fun b x => max b x.1) init := by
  induction l generalizing init with
  | nil => exact .inl rfl
  | cons y l ih =>
    rcases ih (max init y.1) with h | ⟨x, hx, h⟩
    · rw [List.foldl_cons, h]
      by_cases hm : init ≤ y.1
      · exact .inr ⟨y, List.mem_cons_self, (Nat.max_eq_right hm).symm⟩
      · exact .inl (Nat.max_eq_left (Nat.le_of_not_le hm))
    · exact .inr ⟨x, List.mem_cons_of_mem _ hx, h⟩

variable (m r) in
/-- The longest overlap among the candidates, `0` when there are none. -/
def bestOverlap : Nat := (m.viableMatches r).foldl (fun b x => max b x.1) 0

variable (m r) in
/-- The candidates of the longest overlap, in the order of the entries. -/
def bestCandidates : List (Nat × ExportTarget × List String × Option (List String)) :=
  m.paths.toList.filterMap fun e => (m.candidate r e).filter (·.1 == m.bestOverlap r)

/-- When some entry is viable, `bestOverlap` is the longest overlap. -/
theorem longest_bestOverlap (h : ∃ e ∈ m.paths.toList, ∃ k path t, m.Viable r e k path t) :
    m.Longest r (m.bestOverlap r) := by
  obtain ⟨e, he, k, path, t, hv⟩ := h
  have hle : ∀ e ∈ m.paths.toList, ∀ k' path t, m.Viable r e k' path t → k' ≤ m.bestOverlap r := by
    intro e' he' k' path' t' hv'
    have hmem : (k', t', path', e'.args) ∈ m.viableMatches r :=
      viableMatches_eq ▸ List.mem_filterMap.2 ⟨e', he', candidate_eq_some_iff.2 ⟨hv', rfl⟩⟩
    exact (le_foldl_max _ 0).2 _ hmem
  refine ⟨?_, hle⟩
  rcases foldl_max_eq_or_mem (m.viableMatches r) 0 with h0 | ⟨x, hx, hbest⟩
  · -- every overlap is at most `0`, so the viable entry's overlap is the longest
    have hk : k = 0 := Nat.le_zero.1 (h0 ▸ hle e he k path t hv)
    exact ⟨e, he, path, t, by rw [bestOverlap, h0, ← hk]; exact hv⟩
  · obtain ⟨e', he', hc⟩ := List.mem_filterMap.1 (viableMatches_eq ▸ hx)
    obtain ⟨k', t', path', args'⟩ := x
    refine ⟨e', he', path', t', ?_⟩
    rw [bestOverlap, ← hbest]
    exact (candidate_eq_some_iff.1 hc).1

theorem Longest.eq_bestOverlap {k : Nat} (h : m.Longest r k) : k = m.bestOverlap r := by
  have hviable : ∃ e ∈ m.paths.toList, ∃ k path t, m.Viable r e k path t := by
    obtain ⟨⟨e, he, path, t, hv⟩, -⟩ := h
    exact ⟨e, he, k, path, t, hv⟩
  exact h.unique (longest_bestOverlap hviable)

theorem filter_candidate_eq_some_iff {e : ImportEntry} {k : Nat} {t : ExportTarget}
    {path : List String} {args : Option (List String)} :
    (m.candidate r e).filter (·.1 == m.bestOverlap r) = some (k, t, path, args) ↔
      m.Viable r e k path t ∧ args = e.args ∧ k = m.bestOverlap r := by
  rw [Option.filter_eq_some_iff, candidate_eq_some_iff, beq_iff_eq]
  exact and_assoc

theorem filter_candidate_eq_none_iff {e : ImportEntry} :
    (m.candidate r e).filter (·.1 == m.bestOverlap r) = none ↔
      ∀ path t, ¬ m.Viable r e (m.bestOverlap r) path t := by
  constructor
  · intro h path t hv
    have := filter_candidate_eq_some_iff.2 ⟨hv, rfl, rfl⟩
    rw [h] at this
    cases this
  · intro h
    cases hc : (m.candidate r e).filter (·.1 == m.bestOverlap r) with
    | none => rfl
    | some x =>
      obtain ⟨k, t, path, args⟩ := x
      obtain ⟨hv, -, rfl⟩ := filter_candidate_eq_some_iff.1 hc
      exact absurd hv (h path t)

theorem filter_viableMatches :
    (m.viableMatches r).filter (·.1 == m.bestOverlap r) = m.bestCandidates r := by
  rw [viableMatches_eq]
  exact List.filter_filterMap

/-- `resolve` reads its outcome off the candidates of the longest overlap. -/
theorem resolve_cases :
    (m.bestCandidates r = [] ∧ m.resolve r = .unresolved) ∨
      ∃ k t path args rest, m.bestCandidates r = (k, t, path, args) :: rest ∧
        m.resolve r = if rest.all (·.2.1 == t) then .found t path args
          else .ambiguous (dedupAdjacent (((0, t, path, args) :: rest).map fun x =>
            "::".intercalate x.2.2.1)) := by
  unfold resolve
  dsimp only
  split
  · next hnil => exact .inl ⟨filter_viableMatches.symm.trans hnil, rfl⟩
  · next k t path args rest hcons =>
    exact .inr ⟨k, t, path, args, rest, filter_viableMatches.symm.trans hcons, rfl⟩

/-- The candidates of the longest overlap are empty exactly when no entry is viable. -/
theorem bestCandidates_eq_nil_iff :
    m.bestCandidates r = [] ↔ ∀ e ∈ m.paths.toList, ∀ k path t, ¬ m.Viable r e k path t := by
  rw [bestCandidates, List.filterMap_eq_nil_iff]
  constructor
  · intro h e he k path t hv
    obtain ⟨⟨e', he', path', t', hv'⟩, -⟩ := longest_bestOverlap ⟨e, he, k, path, t, hv⟩
    exact filter_candidate_eq_none_iff.1 (h e' he') path' t' hv'
  · intro h e he
    exact filter_candidate_eq_none_iff.2 fun path t => h e he _ path t

/-- The head of the candidates of the longest overlap is the first entry viable with it. -/
theorem bestCandidates_eq_cons_iff {k : Nat} {t : ExportTarget} {path : List String}
    {args : Option (List String)} {rest : List (Nat × ExportTarget × List String × Option (List String))} :
    m.bestCandidates r = (k, t, path, args) :: rest ↔
      k = m.bestOverlap r ∧ ∃ pre e post, m.paths.toList = pre ++ e :: post ∧
        m.Viable r e k path t ∧ args = e.args ∧
        (∀ e' ∈ pre, ∀ path' t', ¬ m.Viable r e' k path' t') ∧
        post.filterMap (fun e => (m.candidate r e).filter (·.1 == m.bestOverlap r)) = rest := by
  rw [bestCandidates, List.filterMap_eq_cons_iff]
  constructor
  · rintro ⟨pre, e, post, hsplit, hpre, he, hrest⟩
    obtain ⟨hv, rfl, rfl⟩ := filter_candidate_eq_some_iff.1 he
    exact ⟨rfl, pre, e, post, hsplit, hv, rfl,
      fun e' he' => filter_candidate_eq_none_iff.1 (hpre e' he'), hrest⟩
  · rintro ⟨rfl, pre, e, post, hsplit, hv, rfl, hpre, hrest⟩
    exact ⟨pre, e, post, hsplit, fun e' he' => filter_candidate_eq_none_iff.2 (hpre e' he'),
      filter_candidate_eq_some_iff.2 ⟨hv, rfl, rfl⟩, hrest⟩

theorem FirstAt.viable {k : Nat} {path : List String} {t : ExportTarget}
    {args : Option (List String)} (h : m.FirstAt r k path t args) :
    ∃ e ∈ m.paths.toList, m.Viable r e k path t := by
  obtain ⟨pre, e, post, hsplit, hv, -, -⟩ := h
  exact ⟨e, hsplit ▸ List.mem_append_right pre List.mem_cons_self, hv⟩

/-- Some entry is viable with the longest overlap, so there is a first one. -/
theorem exists_firstAt {k : Nat} (h : m.Longest r k) : ∃ path t args, m.FirstAt r k path t args := by
  have hk : k = m.bestOverlap r := h.eq_bestOverlap
  cases hb : m.bestCandidates r with
  | nil =>
    obtain ⟨⟨e, he, path, t, hv⟩, -⟩ := h
    exact absurd hv (bestCandidates_eq_nil_iff.1 hb e he k path t)
  | cons x rest =>
    obtain ⟨k', t, path, args⟩ := x
    obtain ⟨rfl, pre, e, post, hsplit, hv, hargs, hpre, -⟩ := bestCandidates_eq_cons_iff.1 hb
    exact ⟨path, t, args, pre, e, post, hsplit, hk ▸ hv, hargs, hk ▸ hpre⟩

/-- Past the first entry viable with the longest overlap, the candidates all name `t` exactly
when every entry viable with that overlap does. -/
theorem agree_iff_all_later {pre post : List ImportEntry} {e : ImportEntry} {path : List String}
    {t : ExportTarget} (hsplit : m.paths.toList = pre ++ e :: post)
    (hv : m.Viable r e (m.bestOverlap r) path t)
    (hpre : ∀ e' ∈ pre, ∀ path' t', ¬ m.Viable r e' (m.bestOverlap r) path' t') :
    m.Agree r (m.bestOverlap r) t ↔
      (post.filterMap fun e => (m.candidate r e).filter (·.1 == m.bestOverlap r)).all
        (·.2.1 == t) = true := by
  rw [List.all_eq_true]
  constructor
  · -- every later candidate comes from an entry of the longest overlap
    intro hagree x hx
    obtain ⟨e', he', hc⟩ := List.mem_filterMap.1 hx
    obtain ⟨k', t', path', args'⟩ := x
    obtain ⟨hv', -, rfl⟩ := filter_candidate_eq_some_iff.1 hc
    have hmem : e' ∈ m.paths.toList :=
      hsplit ▸ List.mem_append_right pre (List.mem_cons_of_mem _ he')
    simpa using hagree e' hmem path' t' hv'
  · -- an entry of the longest overlap stands before `e`, is `e`, or gives a later candidate
    intro hall e' he' path' t' hv'
    rw [hsplit, List.mem_append, List.mem_cons] at he'
    rcases he' with hpre' | rfl | hpost
    · exact absurd hv' (hpre e' hpre' path' t')
    · exact (hv.unique hv').2.2.symm
    · have hc : (m.bestOverlap r, t', path', e'.args) ∈
          post.filterMap fun e => (m.candidate r e).filter (·.1 == m.bestOverlap r) :=
        List.mem_filterMap.2 ⟨e', hpost, filter_candidate_eq_some_iff.2 ⟨hv', rfl, rfl⟩⟩
      simpa using hall _ hc

/-! ### The three outcomes -/

/-- A reference stays unresolved exactly when no entry is viable for it. -/
theorem resolve_eq_unresolved_iff :
    m.resolve r = .unresolved ↔ ∀ e ∈ m.paths.toList, ∀ k path t, ¬ m.Viable r e k path t := by
  rw [← bestCandidates_eq_nil_iff]
  rcases resolve_cases (m := m) (r := r) with ⟨hb, hres⟩ | ⟨k, t, path, args, rest, hb, hres⟩
  · exact iff_of_true hres hb
  · refine iff_of_false (fun h => ?_) (hb ▸ List.cons_ne_nil _ _)
    rw [hres] at h
    split at h <;> cases h

/-- A reference resolves to `t` exactly when the entries of the longest overlap all name `t`;
the export path and the arguments are those of the first of them. -/
theorem resolve_eq_found_iff {t : ExportTarget} {path : List String} {args : Option (List String)} :
    m.resolve r = .found t path args ↔
      ∃ k, m.Longest r k ∧ m.Agree r k t ∧ m.FirstAt r k path t args := by
  constructor
  · intro h
    rcases resolve_cases (m := m) (r := r) with ⟨-, hres⟩ | ⟨k, t', path', args', rest, hb, hres⟩
    · rw [hres] at h
      cases h
    · rw [hres] at h
      split at h
      · next hall =>
        cases h
        obtain ⟨rfl, pre, e, post, hsplit, hv, hargs, hpre, rfl⟩ := bestCandidates_eq_cons_iff.1 hb
        have he : e ∈ m.paths.toList := hsplit ▸ List.mem_append_right pre List.mem_cons_self
        exact ⟨_, longest_bestOverlap ⟨e, he, _, path, t, hv⟩,
          (agree_iff_all_later hsplit hv hpre).2 hall, pre, e, post, hsplit, hv, hargs, hpre⟩
      · cases h
  · rintro ⟨k, hlong, hagree, pre, e, post, hsplit, hv, rfl, hpre⟩
    obtain rfl := hlong.eq_bestOverlap
    have hb := bestCandidates_eq_cons_iff.2 ⟨rfl, pre, e, post, hsplit, hv, rfl, hpre, rfl⟩
    have hall := (agree_iff_all_later hsplit hv hpre).1 hagree
    rcases resolve_cases (m := m) (r := r) with ⟨hb', -⟩ | ⟨k, t', path', args', rest, hb', hres⟩
    · rw [hb] at hb'
      cases hb'
    · rw [hb] at hb'
      simp only [List.cons.injEq, Prod.mk.injEq] at hb'
      obtain ⟨⟨-, rfl, rfl, rfl⟩, rfl⟩ := hb'
      rw [hres, if_pos hall]

/-- A reference is ambiguous exactly when two entries of the longest overlap name different
targets. -/
theorem resolve_eq_ambiguous_iff :
    (∃ c, m.resolve r = .ambiguous c) ↔ ∃ k, m.Longest r k ∧ m.Disagree r k := by
  constructor
  · rintro ⟨c, hc⟩
    have hviable : ∃ e ∈ m.paths.toList, ∃ k path t, m.Viable r e k path t := by
      refine Classical.byContradiction fun hnone => ?_
      rw [resolve_eq_unresolved_iff.2 fun e he k path t hv => hnone ⟨e, he, k, path, t, hv⟩] at hc
      cases hc
    have hlong := longest_bestOverlap hviable
    refine ⟨_, hlong, ?_⟩
    obtain ⟨e, he, path, t, hv⟩ := hlong.1
    -- were all entries of the longest overlap to agree, the reference would be found
    refine Classical.byContradiction fun hagree => ?_
    have hall : m.Agree r (m.bestOverlap r) t := by
      intro e' he' path' t' hv'
      exact Classical.byContradiction fun hne => hagree ⟨e', he', e, he, path', t', path, t, hv', hv, hne⟩
    obtain ⟨path₀, t₀, args₀, hfirst⟩ := exists_firstAt hlong
    obtain ⟨e₀, he₀, hv₀⟩ := hfirst.viable
    have ht₀ : t₀ = t := hall e₀ he₀ path₀ t₀ hv₀
    subst ht₀
    rw [resolve_eq_found_iff.2 ⟨_, hlong, hall, hfirst⟩] at hc
    cases hc
  · rintro ⟨k, hlong, e₁, he₁, e₂, he₂, path₁, t₁, path₂, t₂, hv₁, hv₂, hne⟩
    cases hres : m.resolve r with
    | unresolved => exact absurd hv₁ (resolve_eq_unresolved_iff.1 hres e₁ he₁ k path₁ t₁)
    | found t path args =>
      obtain ⟨k', hlong', hagree, -⟩ := resolve_eq_found_iff.1 hres
      obtain rfl := hlong.unique hlong'
      exact absurd ((hagree e₁ he₁ path₁ t₁ hv₁).trans (hagree e₂ he₂ path₂ t₂ hv₂).symm) hne
    | ambiguous c => exact ⟨c, rfl⟩

/-! ### The order of the entries -/

section Reorder

variable {m' : ResolveMap} (hx : m'.exports = m.exports) (hp : m'.paths.toList.Perm m.paths.toList)
include hx hp

theorem longest_perm {k : Nat} : m'.Longest r k ↔ m.Longest r k := by
  simp only [Longest, hp.mem_iff, viable_congr hx]

theorem agree_perm {k : Nat} {t : ExportTarget} : m'.Agree r k t ↔ m.Agree r k t := by
  simp only [Agree, hp.mem_iff, viable_congr hx]

theorem disagree_perm {k : Nat} : m'.Disagree r k ↔ m.Disagree r k := by
  simp only [Disagree, hp.mem_iff, viable_congr hx]

/-- Reordering the entries keeps the kind of outcome and the target found. -/
theorem resolve_perm :
    (m'.resolve r = .unresolved ↔ m.resolve r = .unresolved) ∧
      (∀ t, (∃ path args, m'.resolve r = .found t path args) ↔
        ∃ path args, m.resolve r = .found t path args) ∧
      ((∃ c, m'.resolve r = .ambiguous c) ↔ ∃ c, m.resolve r = .ambiguous c) := by
  refine ⟨?_, fun t => ?_, ?_⟩
  · simp only [resolve_eq_unresolved_iff, hp.mem_iff, viable_congr hx]
  · -- the first entry of the longest overlap may differ, but it names the agreed target
    have found_of {a b : ResolveMap} (hab : ∀ {k}, a.Longest r k → b.Longest r k)
        (hag : ∀ {k}, a.Agree r k t → b.Agree r k t) :
        (∃ path args, a.resolve r = .found t path args) →
          ∃ path args, b.resolve r = .found t path args := by
      rintro ⟨_, _, h⟩
      obtain ⟨k, hlong, hagree, -⟩ := resolve_eq_found_iff.1 h
      obtain ⟨path, t', args, hfirst⟩ := exists_firstAt (hab hlong)
      obtain ⟨e, he, hv⟩ := hfirst.viable
      obtain rfl := hag hagree e he path t' hv
      exact ⟨path, args, resolve_eq_found_iff.2 ⟨k, hab hlong, hag hagree, hfirst⟩⟩
    exact ⟨found_of (longest_perm hx hp).1 (agree_perm hx hp).1,
      found_of (longest_perm hx hp).2 (agree_perm hx hp).2⟩
  · simp only [resolve_eq_ambiguous_iff, longest_perm hx hp, disagree_perm hx hp]

end Reorder

/-- An import of `util::foo` and, after it, a wildcard import of `other`, which exports a `foo`
as well. -/
def explicitThenWildcard : ResolveMap :=
  ⟨#[⟨["foo"], ["util", "foo"], none, ⟨0, 16⟩⟩, ⟨[], ["other"], none, ⟨17, 32⟩⟩],
    #[(["util", "foo"], .decl ⟨["util"]⟩ 0), (["other", "foo"], .decl ⟨["other"]⟩ 0)]⟩

/-- The same imports in the other order. -/
def wildcardThenExplicit : ResolveMap :=
  ⟨#[⟨[], ["other"], none, ⟨17, 32⟩⟩, ⟨["foo"], ["util", "foo"], none, ⟨0, 16⟩⟩],
    explicitThenWildcard.exports⟩

end ResolveMap

end ShaderLink
