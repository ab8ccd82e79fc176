import Mathlib.Data.List.Nodup
import ArmaraOS.Lib.FirstSeen

/-!
Breadth-first search.

`visitLevels` goes level by level and notes an element when it comes to it. `drain` goes through a
queue of elements with their depths and notes an element when it puts it there. Both find the
elements within a number of steps, each once.
-/

namespace ArmaraOS.Lib.BreadthFirst

variable {α : Type} (next : α → List α)

/-! ### Steps -/

/-- An element is reached from `start` by a number of steps. -/
inductive Reaches (start : α) : Nat → α → Prop where
  | start : Reaches start 0 start
  | step {n : Nat} {a b : α} : Reaches start n a → b ∈ next a → Reaches start (n + 1) b

/-- `a` is no farther from `start` than `b`. -/
def Closer (start a b : α) : Prop := ∀ n, Reaches next start n b → ∃ m ≤ n, Reaches next start m a

variable {next}

theorem reaches_zero {start a : α} : Reaches next start 0 a ↔ a = start := by
  constructor
  · rintro ⟨⟩
    rfl
  · rintro rfl
    exact .start

theorem reaches_succ {start b : α} {n : Nat} :
    Reaches next start (n + 1) b ↔ ∃ a, Reaches next start n a ∧ b ∈ next a := by
  constructor
  · rintro ⟨⟩
    exact ⟨_, ‹_›, ‹_›⟩
  · rintro ⟨a, ha, hb⟩
    exact .step ha hb

/-- What is not reached by fewer steps is no closer than what is. -/
theorem closer_of_reaches {start a b : α} {k : Nat} (ha : ∃ m ≤ k, Reaches next start m a)
    (hb : ¬ ∃ m < k, Reaches next start m b) : Closer next start a b := by
  intro n hn
  obtain ⟨m, hm, hreach⟩ := ha
  refine ⟨m, Nat.le_trans hm (Nat.le_of_not_lt fun hlt => hb ⟨n, hlt, hn⟩), hreach⟩

variable [DecidableEq α]

theorem nodup_foldl_addNew {found : List α} (h : found.Nodup) (as : List α) :
    (as.foldl addNew found).Nodup := by
  induction as generalizing found with
  | nil => exact h
  | cons a as ih =>
      refine ih ?_
      by_cases ha : a ∈ found
      · rwa [addNew_of_mem ha]
      · rw [addNew_of_notMem ha]
        exact h.append (List.nodup_singleton a) (List.disjoint_singleton.mpr ha)

/-! ### Level by level -/

section Levels

/-- What is found, and what the next level is to go through. -/
structure Search (α : Type) where
  found : List α
  level : List α

variable (next)

/-- One element of a level. -/
def visit (st : Search α) (a : α) : Search α :=
  if a ∈ st.found then st
  else
    { found := st.found ++ [a]
      level := st.level ++ (next a).filter fun b => b ∉ st.found ++ [a] }

/-- A number of levels. -/
def visitLevels : Nat → Search α → List α
  | 0, st => st.found
  | n + 1, st => visitLevels n (st.level.foldl (visit next) { st with level := [] })

/-- What a level does: it adds its new elements, and lists the elements behind them. -/
structure Visited (as : List α) (st st' : Search α) : Prop where
  found : st'.found = as.foldl addNew st.found
  level : ∀ b ∈ st'.level, b ∈ st.level ∨ ∃ a ∈ as, b ∈ next a
  kept : ∀ b ∈ st.level, b ∈ st'.level
  complete : ∀ a ∈ as, a ∉ st.found → ∀ b ∈ next a, b ∈ st'.found ∨ b ∈ st'.level

/-- What holds when `k` levels are done. -/
structure LevelInv (start : α) (k : Nat) (st : Search α) : Prop where
  found : ∀ a, a ∈ st.found ↔ ∃ m < k, Reaches next start m a
  level : ∀ a ∈ st.level, Reaches next start k a
  complete : ∀ a, Reaches next start k a → a ∈ st.found ∨ a ∈ st.level
  nodup : st.found.Nodup
  sorted : st.found.Pairwise (Closer next start)

variable {next}

theorem visit_visited (st : Search α) (a : α) : Visited next [a] st (visit next st a) := by
  unfold visit
  split
  · rename_i hmem
    exact
      { found := (addNew_of_mem hmem).symm
        level := fun b hb => .inl hb
        kept := fun b hb => hb
        complete := fun c hc hnew => by
          rw [List.mem_singleton.mp hc] at hnew
          exact absurd hmem hnew }
  · rename_i hnew
    exact
      { found := (addNew_of_notMem hnew).symm
        level := fun b hb => by
          rcases List.mem_append.mp hb with hb | hb
          · exact .inl hb
          · exact .inr ⟨a, List.mem_singleton_self a, (List.mem_filter.mp hb).1⟩
        kept := fun b hb => List.mem_append_left _ hb
        complete := fun c hc _ b hb => by
          rw [List.mem_singleton.mp hc] at hb
          by_cases hseen : b ∈ st.found ++ [a]
          · exact .inl hseen
          · exact .inr (List.mem_append_right _ (List.mem_filter.mpr ⟨hb, by simpa using hseen⟩)) }

theorem Visited.trans {as bs : List α} {st mid st' : Search α} (h : Visited next as st mid)
    (h' : Visited next bs mid st') : Visited next (as ++ bs) st st' where
  found := by rw [h'.found, h.found, List.foldl_append]
  level b hb := by
    rcases h'.level b hb with hb | ⟨a, ha, hb⟩
    · rcases h.level b hb with hb | ⟨a, ha, hb⟩
      · exact .inl hb
      · exact .inr ⟨a, List.mem_append_left _ ha, hb⟩
    · exact .inr ⟨a, List.mem_append_right _ ha, hb⟩
  kept b hb := h'.kept b (h.kept b hb)
  complete a ha hnew b hb := by
    have hgrow : mid.found <+: st'.found := h'.found ▸ prefix_foldl_addNew bs mid.found
    have hfirst : a ∈ as → b ∈ st'.found ∨ b ∈ st'.level := fun ha =>
      (h.complete a ha hnew b hb).imp (hgrow.subset ·) (h'.kept b)
    rcases List.mem_append.mp ha with ha | ha
    · exact hfirst ha
    · by_cases hmid : a ∈ mid.found
      · rw [h.found, mem_foldl_addNew] at hmid
        exact hfirst (hmid.resolve_left hnew)
      · exact h'.complete a ha hmid b hb

theorem foldl_visit_visited (as : List α) (st : Search α) :
    Visited next as st (as.foldl (visit next) st) := by
  induction as generalizing st with
  | nil => exact ⟨rfl, fun b hb => .inl hb, fun b hb => hb, fun a ha => absurd ha List.not_mem_nil⟩
  | cons a as ih => exact (visit_visited st a).trans (ih (visit next st a))

omit [DecidableEq α] in
theorem levelInv_start (a : α) : LevelInv next a 0 ⟨[], [a]⟩ where
  found b := by simp
  level b hb := by
    rw [List.mem_singleton.mp hb]
    exact .start
  complete b hb := .inr (by rw [reaches_zero.mp hb]; exact List.mem_singleton_self a)
  nodup := List.nodup_nil
  sorted := List.Pairwise.nil

/-- A level is done. -/
theorem LevelInv.succ {start : α} {k : Nat} {st : Search α} (h : LevelInv next start k st) :
    LevelInv next start (k + 1) (st.level.foldl (visit next) { st with level := [] }) := by
  have hvisited := @foldl_visit_visited _ next _ st.level { st with level := [] }
  generalize st.level.foldl (visit next) { st with level := [] } = st' at hvisited
  have hfound : ∀ a, a ∈ st'.found ↔ ∃ m < k + 1, Reaches next start m a := by
    intro a
    rw [hvisited.found, mem_foldl_addNew]
    constructor
    · rintro (ha | ha)
      · obtain ⟨m, hm, hreach⟩ := (h.found a).mp ha
        exact ⟨m, Nat.lt_succ_of_lt hm, hreach⟩
      · exact ⟨k, Nat.lt_succ_self k, h.level a ha⟩
    · rintro ⟨m, hm, hreach⟩
      rcases Nat.lt_succ_iff_lt_or_eq.mp hm with hm | rfl
      · exact .inl ((h.found a).mpr ⟨m, hm, hreach⟩)
      · exact h.complete a hreach
  have hnodup : st'.found.Nodup := hvisited.found ▸ nodup_foldl_addNew h.nodup st.level
  refine
    { found := hfound
      level := fun b hb => ?_
      complete := fun b hb => ?_
      nodup := hnodup
      sorted := ?_ }
  · rcases hvisited.level b hb with hb | ⟨a, ha, hb⟩
    · exact absurd hb List.not_mem_nil
    · exact .step (h.level a ha) hb
  · obtain ⟨a, ha, hb⟩ := reaches_succ.mp hb
    by_cases hmem : a ∈ st.found
    · obtain ⟨m, hm, hreach⟩ := (h.found a).mp hmem
      exact .inl ((hfound b).mpr ⟨m + 1, Nat.succ_lt_succ hm, .step hreach hb⟩)
    · exact hvisited.complete a ((h.complete a ha).resolve_left hmem) hmem b hb
  · obtain ⟨new, hnew⟩ : st.found <+: st'.found :=
      hvisited.found ▸ prefix_foldl_addNew st.level st.found
    rw [← hnew] at hnodup hfound ⊢
    have hlast : ∀ a ∈ new, (∃ m ≤ k, Reaches next start m a) ∧
        ¬ ∃ m < k, Reaches next start m a := by
      intro a ha
      obtain ⟨m, hm, hreach⟩ := (hfound a).mp (List.mem_append_right _ ha)
      exact ⟨⟨m, Nat.le_of_lt_succ hm, hreach⟩, fun hless =>
        (List.disjoint_of_nodup_append hnodup) ((h.found a).mpr hless) ha⟩
    refine List.pairwise_append.mpr ⟨h.sorted, ?_, fun a ha b hb => ?_⟩
    · exact List.pairwise_of_forall_mem_list fun a ha b hb =>
        closer_of_reaches (hlast a ha).1 (hlast b hb).2
    · obtain ⟨m, hm, hreach⟩ := (h.found a).mp ha
      exact closer_of_reaches ⟨m, Nat.le_of_lt hm, hreach⟩ (hlast b hb).2

/-- A number of levels finds what is reached by fewer steps, each once, in the order of the
distances. -/
theorem visitLevels_spec (start : α) (depth : Nat) :
    let found := visitLevels next depth ⟨[], [start]⟩
    (∀ a, a ∈ found ↔ ∃ m < depth, Reaches next start m a) ∧ found.Nodup ∧
      found.Pairwise (Closer next start) := by
  have hfrom : ∀ {n k : Nat} {st : Search α}, LevelInv next start k st →
      ∃ st', LevelInv next start (k + n) st' ∧ visitLevels next n st = st'.found := by
    intro n
    induction n with
    | zero => exact fun h => ⟨_, h, rfl⟩
    | succ n ih =>
        intro k st h
        obtain ⟨st', hinv, hrun⟩ := ih h.succ
        exact ⟨st', by rwa [Nat.add_right_comm] at hinv, hrun⟩
  obtain ⟨st', hinv, hrun⟩ := @hfrom depth 0 _ (levelInv_start start)
  rw [Nat.zero_add] at hinv
  dsimp only
  rw [hrun]
  exact ⟨hinv.found, hinv.nodup, hinv.sorted⟩

end Levels

/-! ### Through a queue -/

section Queue

/-- The elements of a list that are not found yet, each once. -/
def fresh (found : List α) : List α → List α
  | [] => []
  | a :: as => if a ∈ found then fresh found as else a :: fresh (found ++ [a]) as

variable (next)

/-- One element behind the one that is taken from the queue: what is found, and the queue. -/
def discover (depth : Nat) (st : List α × List (α × Nat)) (b : α) : List α × List (α × Nat) :=
  if b ∈ st.1 then st else (st.1 ++ [b], st.2 ++ [(b, depth + 1)])

/-- The queue is emptied; `none` is for too little fuel. -/
def drain (limit : Nat) : Nat → List (α × Nat) → List α → Option (List α)
  | _, [], found => some found
  | 0, _ :: _, _ => none
  | fuel + 1, (a, depth) :: queue, found =>
      if limit ≤ depth then drain limit fuel queue found
      else
        let st := (next a).foldl (discover depth) (found, queue)
        drain limit fuel st.2 st.1

variable {next}

theorem mem_fresh {found as : List α} {b : α} : b ∈ fresh found as ↔ b ∈ as ∧ b ∉ found := by
  induction as generalizing found with
  | nil => simp [fresh]
  | cons a as ih =>
      rw [fresh]
      split
      · rename_i hmem
        rw [ih, List.mem_cons]
        refine and_congr_left fun hnew => (or_iff_right ?_).symm
        rintro rfl
        exact hnew hmem
      · rename_i hnew
        rw [List.mem_cons, ih, List.mem_cons, List.mem_append, List.mem_singleton, not_or]
        by_cases hb : b = a
        · rw [hb]
          exact iff_of_true (.inl rfl) ⟨.inl rfl, hnew⟩
        · simp [hb]

theorem nodup_append_fresh {found : List α} (h : found.Nodup) (as : List α) :
    (found ++ fresh found as).Nodup := by
  induction as generalizing found with
  | nil => rwa [fresh, List.append_nil]
  | cons a as ih =>
      rw [fresh]
      split
      · exact ih h
      · rename_i hnew
        have hmore := ih (h.append (List.nodup_singleton a) (List.disjoint_singleton.mpr hnew))
        rwa [List.append_assoc, List.singleton_append] at hmore

theorem fresh_append (found as bs : List α) :
    fresh found (as ++ bs) = fresh found as ++ fresh (found ++ fresh found as) bs := by
  induction as generalizing found with
  | nil => rw [List.nil_append, fresh, List.nil_append, List.append_nil]
  | cons a as ih =>
      rw [List.cons_append, fresh, fresh]
      split
      · exact ih found
      · rw [ih, List.cons_append, List.append_assoc, List.singleton_append]

theorem foldl_discover (depth : Nat) (found : List α) (queue : List (α × Nat)) (as : List α) :
    as.foldl (discover depth) (found, queue) =
      (found ++ fresh found as, queue ++ (fresh found as).map fun b => (b, depth + 1)) := by
  induction as generalizing found queue with
  | nil => rw [fresh, List.append_nil, List.map_nil, List.append_nil, List.foldl_nil]
  | cons a as ih =>
      rw [List.foldl_cons, discover, fresh]
      split
      · exact ih found queue
      · rw [ih, List.append_assoc, List.append_assoc, List.singleton_append, List.singleton_append,
          List.map_cons]

/-- The elements of one depth are taken, and those found behind them are put into the queue. -/
theorem drain_level {limit depth : Nat} (hdepth : depth < limit) (fuel : Nat) (level : List α)
    (behind : List (α × Nat)) (found : List α) :
    drain next limit (level.length + fuel) (level.map (fun a => (a, depth)) ++ behind) found =
      drain next limit fuel
        (behind ++ (fresh found (level.flatMap next)).map fun b => (b, depth + 1))
        (found ++ fresh found (level.flatMap next)) := by
  induction level generalizing behind found with
  | nil => simp [fresh]
  | cons a level ih =>
      have hfuel : (a :: level).length + fuel = level.length + fuel + 1 := by
        rw [List.length_cons]
        omega
      rw [hfuel, List.map_cons, List.cons_append, drain, if_neg (Nat.not_le.mpr hdepth),
        foldl_discover, List.append_assoc, ih, List.flatMap_cons, fresh_append, List.map_append,
        List.append_assoc, List.append_assoc]

/-- At the limit nothing more is found. -/
theorem drain_limit (limit fuel : Nat) (level found : List α) :
    drain next limit (level.length + fuel) (level.map fun a => (a, limit)) found = some found := by
  induction level with
  | nil => rw [List.map_nil, drain]
  | cons a level ih =>
      have hfuel : (a :: level).length + fuel = level.length + fuel + 1 := by
        rw [List.length_cons]
        omega
      rw [hfuel, List.map_cons, drain, if_pos (Nat.le_refl limit)]
      exact ih

/-- What holds when the elements of a depth are next in the queue. -/
structure DepthInv (next : α → List α) (start : α) (depth : Nat) (level found : List α) :
    Prop where
  reached : ∀ a, a ∈ found ↔ ∃ m ≤ depth, Reaches next start m a
  newest : ∀ a, a ∈ level ↔
    Reaches next start depth a ∧ ¬ ∃ m < depth, Reaches next start m a
  nodup : found.Nodup

omit [DecidableEq α] in
theorem depthInv_start (a : α) : DepthInv next a 0 [a] [a] where
  reached b := by simp [reaches_zero]
  newest b := by simp [reaches_zero]
  nodup := List.nodup_singleton a

/-- The elements of a depth are done. -/
theorem DepthInv.succ {start : α} {depth : Nat} {level found : List α}
    (h : DepthInv next start depth level found) :
    DepthInv next start (depth + 1) (fresh found (level.flatMap next))
      (found ++ fresh found (level.flatMap next)) := by
  have hbehind : ∀ b, (b ∈ level.flatMap next ∧ b ∉ found) ↔
      Reaches next start (depth + 1) b ∧ ¬ ∃ m < depth + 1, Reaches next start m b := by
    intro b
    have hfound : b ∈ found ↔ ∃ m < depth + 1, Reaches next start m b := by
      simp only [h.reached, Nat.lt_succ_iff]
    rw [hfound]
    refine and_congr_left fun hnew => ?_
    rw [List.mem_flatMap, reaches_succ]
    refine exists_congr fun a => ⟨fun ⟨ha, hb⟩ => ⟨((h.newest a).mp ha).1, hb⟩, fun ⟨ha, hb⟩ =>
      ⟨(h.newest a).mpr ⟨ha, ?_⟩, hb⟩⟩
    rintro ⟨m, hm, hreach⟩
    exact hnew ⟨m + 1, Nat.succ_lt_succ hm, .step hreach hb⟩
  refine
    { reached := fun b => ?_
      newest := fun b => mem_fresh.trans (hbehind b)
      nodup := nodup_append_fresh h.nodup _ }
  rw [List.mem_append, mem_fresh, hbehind b, h.reached]
  constructor
  · rintro (⟨m, hm, hreach⟩ | ⟨hreach, -⟩)
    · exact ⟨m, Nat.le_succ_of_le hm, hreach⟩
    · exact ⟨depth + 1, Nat.le_refl _, hreach⟩
  · rintro ⟨m, hm, hreach⟩
    by_cases hless : ∃ m ≤ depth, Reaches next start m b
    · exact .inl hless
    · obtain rfl : m = depth + 1 := by
        by_contra hne
        exact hless ⟨m, by omega, hreach⟩
      exact .inr ⟨hreach, fun ⟨m, hm, hreach⟩ => hless ⟨m, Nat.le_of_lt_succ hm, hreach⟩⟩

/-- With fuel for what it finds, the queue is emptied, and what is reached by at most `limit` steps
is found, each once. -/
theorem drain_spec (start : α) (limit : Nat) :
    ∃ more, (∀ a, a ∈ start :: more ↔ ∃ m ≤ limit, Reaches next start m a) ∧
      (start :: more).Nodup ∧
      ∀ fuel, drain next limit ((start :: more).length + fuel) [(start, 0)] [start] =
        some (start :: more) := by
  have hfrom : ∀ {left depth : Nat} {level found : List α}, depth + left = limit →
      DepthInv next start depth level found →
        ∃ more, (∀ a, a ∈ found ++ more ↔ ∃ m ≤ limit, Reaches next start m a) ∧
          (found ++ more).Nodup ∧
          ∀ fuel, drain next limit (level.length + more.length + fuel)
            (level.map fun a => (a, depth)) found = some (found ++ more) := by
    intro left
    induction left with
    | zero =>
        intro depth level found hlimit h
        obtain rfl : depth = limit := hlimit
        refine ⟨[], ?_, ?_, fun fuel => ?_⟩
        · rw [List.append_nil]
          exact h.reached
        · rw [List.append_nil]
          exact h.nodup
        · rw [List.append_nil]
          exact drain_limit depth fuel level found
    | succ left ih =>
        intro depth level found hlimit h
        obtain ⟨more, hmem, hnodup, hrun⟩ := ih (by omega) h.succ
        rw [List.append_assoc] at hmem hnodup
        refine ⟨_, hmem, hnodup, fun fuel => ?_⟩
        have hlevel := @drain_level _ next _ limit depth (by omega)
          ((fresh found (level.flatMap next)).length + more.length + fuel) level [] found
        rw [List.append_nil, List.nil_append, hrun, List.append_assoc] at hlevel
        rw [List.length_append, ← hlevel]
        congr 1
        omega
  obtain ⟨more, hmem, hnodup, hrun⟩ := hfrom (Nat.zero_add limit) (depthInv_start start)
  refine ⟨more, hmem, hnodup, fun fuel => ?_⟩
  have hlen : (start :: more).length = [start].length + more.length := by
    rw [List.length_cons, List.length_singleton]
    omega
  rw [hlen]
  exact hrun fuel

end Queue

end ArmaraOS.Lib.BreadthFirst
