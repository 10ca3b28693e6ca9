import Mathlib.Data.List.Chain
import Mathlib.Data.Set.Card
import Mathlib.Order.Lattice.Nat
import HeaderAtlas.Emission.Level
import HeaderAtlas.Proofs.Emission.Dependency

/-!
# How high levels get

A level is at every time the length of a path that starts at its place (`LevelGraph.levelAt_levelsAfter_mem`), so where there are
no circles it is at most the length of the longest one. After so many rounds every path of at most so many edges is counted in the
level of its first place, and one round is enough where dependencies stand before what depends on them. A round that raises nothing
may be left out or made: the levels are those of all rounds (`LevelGraph.levels_levelFrom`).
-/

namespace HeaderAtlas

open Relation (TransGen)

/-! ## Paths -/

/-- The numbers of edges of the paths that start at a place. -/
def pathLengths (edge : Nat → Nat → Prop) (i : Nat) : Set Nat :=
  {n | ∃ path : List Nat, (i :: path).IsChain edge ∧ path.length = n}

section Paths

variable {edge : Nat → Nat → Prop} {i j n size : Nat}

/-- From every place there is the path that stays there. -/
theorem zero_mem_pathLengths : 0 ∈ pathLengths edge i := ⟨[], .singleton i, rfl⟩

/-- A path of one edge more is an edge and a path from its end. -/
theorem succ_mem_pathLengths_iff : n + 1 ∈ pathLengths edge i ↔ ∃ j, edge i j ∧ n ∈ pathLengths edge j := by
  constructor
  · rintro ⟨path, hchain, hlength⟩
    obtain ⟨j, path, rfl⟩ := List.exists_cons_of_length_eq_add_one hlength
    obtain ⟨hij, hchain⟩ := List.isChain_cons_cons.mp hchain
    exact ⟨j, hij, path, hchain, Nat.succ.inj hlength⟩
  · rintro ⟨j, hij, path, hchain, rfl⟩
    exact ⟨j :: path, List.isChain_cons_cons.mpr ⟨hij, hchain⟩, rfl⟩

/-- Edges that all lead upwards make no circle. -/
theorem not_transGen_of_lt (h : ∀ i j, edge i j → i < j) (i : Nat) : ¬TransGen edge i i := by
  have hlt : ∀ {i j}, TransGen edge i j → i < j := by
    intro i j hij
    induction hij with
    | single hij => exact h _ _ hij
    | tail _ hjk ih => exact ih.trans (h _ _ hjk)
  exact fun hi => Nat.lt_irrefl i (hlt hi)

/-- A path that starts in a finite graph stays in it. -/
theorem lt_size_of_isChain (hsize : ∀ i j, edge i j → i < size ∧ j < size) {path : List Nat} :
    ∀ {i}, i < size → (i :: path).IsChain edge → ∀ k ∈ i :: path, k < size := by
  induction path with
  | nil => simp
  | cons j path ih =>
    intro i hi hchain
    obtain ⟨hij, hchain⟩ := List.isChain_cons_cons.mp hchain
    exact List.forall_mem_cons.mpr ⟨hi, ih (hsize i j hij).2 hchain⟩

/-- Without circles a path meets no place twice, so it has fewer edges than there are places. -/
theorem lt_size_of_mem_pathLengths (hacyclic : ∀ i, ¬TransGen edge i i) (hsize : ∀ i j, edge i j → i < size ∧ j < size)
    (h : n ∈ pathLengths edge i) : n = 0 ∨ n < size := by
  obtain ⟨path, hchain, rfl⟩ := h
  cases path with
  | nil => exact Or.inl rfl
  | cons j path =>
    have hi := (hsize i j (List.isChain_cons_cons.mp hchain).1).1
    have hpaths : (i :: j :: path).Pairwise (TransGen edge) := (hchain.imp fun _ _ => TransGen.single).pairwise
    have hnodup : (i :: j :: path).Nodup := hpaths.imp <| by
      rintro a _ hab rfl
      exact hacyclic a hab
    have hsub : i :: j :: path ⊆ List.range size :=
      fun k hk => List.mem_range.mpr (lt_size_of_isChain hsize hi hchain k hk)
    exact Or.inr (by simpa using hnodup.length_le_of_subset hsub)

/-- Without circles, a finite graph has a longest path from each of its places. -/
theorem exists_isGreatest_pathLengths (hacyclic : ∀ i, ¬TransGen edge i i) (hsize : ∀ i j, edge i j → i < size ∧ j < size)
    (i : Nat) : ∃ longest, IsGreatest (pathLengths edge i) longest := by
  have hbound : BddAbove (pathLengths edge i) := by
    refine ⟨size, fun n hn => ?_⟩
    have := lt_size_of_mem_pathLengths hacyclic hsize hn
    omega
  exact ⟨sSup (pathLengths edge i), Nat.sSup_mem ⟨0, zero_mem_pathLengths⟩ hbound, fun n hn => le_csSup hbound hn⟩

end Paths

/-! ## Raising one level -/

/-- The level at a place, zero where the list has no such place. -/
abbrev levelAt (levels : List Nat) (i : Nat) : Nat := levels.getD i 0

section Raise

variable {levels places : List Nat} {level i j k : Nat}

/-- Raising never lowers. -/
theorem le_raisedLevel : level ≤ raisedLevel levels level places := by
  induction places generalizing level with
  | nil => exact Nat.le_refl level
  | cons j places ih => exact Nat.le_trans (Nat.le_max_left ..) ih

/-- A raised level is higher than that of every dependency. -/
theorem lt_raisedLevel (h : j ∈ places) : levelAt levels j < raisedLevel levels level places := by
  induction places generalizing level with
  | nil => simp at h
  | cons k places ih =>
    rcases List.mem_cons.mp h with rfl | h
    · exact Nat.lt_of_lt_of_le (Nat.lt_of_succ_le (Nat.le_max_right ..)) le_raisedLevel
    · exact ih h

/-- A raised level is the old one, or one more than the level at one of the places. -/
theorem raisedLevel_cases (levels places : List Nat) (level : Nat) :
    raisedLevel levels level places = level ∨ ∃ j ∈ places, raisedLevel levels level places = levelAt levels j + 1 := by
  induction places generalizing level with
  | nil => exact Or.inl rfl
  | cons k places ih =>
    rcases ih (max level (levelAt levels k + 1)) with h | ⟨j, hj, h⟩
    · rcases Nat.le_total level (levelAt levels k + 1) with hle | hle
      · exact Or.inr ⟨k, List.mem_cons_self, h.trans (Nat.max_eq_right hle)⟩
      · exact Or.inl (h.trans (Nat.max_eq_left hle))
    · exact Or.inr ⟨j, List.mem_cons_of_mem k hj, h⟩

theorem length_raise (entry : List Nat × Nat) : (raise levels entry).length = levels.length := List.length_set

/-- Raising one entry sets its level, and no other. -/
theorem levelAt_raise (hi : i < levels.length) :
    levelAt (raise levels (places, i)) k = if k = i then raisedLevel levels (levelAt levels i) places else levelAt levels k := by
  simp only [levelAt, raise, List.getD_eq_getElem?_getD, List.getElem?_set, hi, if_true]
  split <;> simp_all [eq_comm]

/-- Outside of the list there is no level to raise. -/
theorem raise_of_length_le (h : levels.length ≤ i) : raise levels (places, i) = levels := List.set_eq_of_length_le h

/-- The level of another place stays. -/
theorem levelAt_raise_of_ne {entry : List Nat × Nat} (h : k ≠ entry.2) : levelAt (raise levels entry) k = levelAt levels k := by
  simp only [levelAt, raise, List.getD_eq_getElem?_getD, List.getElem?_set, if_neg (Ne.symm h)]

end Raise

/-! ## One round -/

section Round

variable {levels : List Nat} {entries : List (List Nat × Nat)} {k : Nat}

/-- A round has as many levels as before. -/
theorem length_foldl_raise : (entries.foldl raise levels).length = levels.length := by
  induction entries generalizing levels with
  | nil => rfl
  | cons entry entries ih => rw [List.foldl_cons, ih, length_raise]

/-- A level stays while other entries are raised. -/
theorem levelAt_foldl_raise_of_ne (h : ∀ entry ∈ entries, k ≠ entry.2) :
    levelAt (entries.foldl raise levels) k = levelAt levels k := by
  induction entries generalizing levels with
  | nil => rfl
  | cons entry entries ih =>
    obtain ⟨hentry, hentries⟩ := List.forall_mem_cons.mp h
    rw [List.foldl_cons, ih hentries, levelAt_raise_of_ne hentry]

/-- One entry lowers no level. -/
theorem levelAt_le_raise (levels : List Nat) (entry : List Nat × Nat) (k : Nat) :
    levelAt levels k ≤ levelAt (raise levels entry) k := by
  obtain ⟨places, i⟩ := entry
  by_cases hi : i < levels.length
  · rw [levelAt_raise hi]
    split
    · subst k
      exact le_raisedLevel
    · exact Nat.le_refl _
  · rw [raise_of_length_le (by omega)]

/-- A raise leaves a level as it is, or puts it one above that of a place it depends on. -/
theorem levelAt_raise_cases (levels places : List Nat) (i k : Nat) :
    levelAt (raise levels (places, i)) k = levelAt levels k ∨
      k = i ∧ ∃ j ∈ places, levelAt (raise levels (places, i)) k = levelAt levels j + 1 := by
  by_cases hi : i < levels.length
  · rw [levelAt_raise hi]
    split
    · rename_i hk
      subst hk
      exact (raisedLevel_cases levels places _).imp id fun h => ⟨rfl, h⟩
    · exact Or.inl rfl
  · rw [raise_of_length_le (by omega)]
    exact Or.inl rfl

/-- A round lowers no level. -/
theorem levelAt_le_foldl_raise : levelAt levels k ≤ levelAt (entries.foldl raise levels) k := by
  induction entries generalizing levels with
  | nil => exact Nat.le_refl _
  | cons entry entries ih => exact Nat.le_trans (levelAt_le_raise levels entry k) ih

end Round

namespace LevelGraph

variable {g : LevelGraph} {levels : List Nat} {i j : Nat}

/-- The type at the first place depends on the one at the second. -/
def Edge (g : LevelGraph) (i j : Nat) : Prop := ∃ places, g[i]? = some places ∧ j ∈ places

/-- In a round a place is raised once; those raised before it are the places before it, and those after it the places behind it. -/
theorem exists_round_split {places : List Nat} (h : g[i]? = some places) : ∃ before after : List (List Nat × Nat),
    g.zipIdx = before ++ (places, i) :: after ∧ (∀ entry ∈ before, entry.2 < i) ∧ ∀ entry ∈ after, i < entry.2 := by
  obtain ⟨hi, rfl⟩ := List.getElem?_eq_some_iff.mp h
  refine ⟨(g.take i).zipIdx, (g.drop (i + 1)).zipIdx (i + 1), ?_, fun entry hentry => ?_, fun entry hentry => ?_⟩
  · conv_lhs => rw [← List.take_append_drop i g, List.drop_eq_getElem_cons hi]
    rw [List.zipIdx_append, List.zipIdx_cons, List.length_take_of_le hi.le, Nat.zero_add]
  · have := List.snd_lt_of_mem_zipIdx hentry
    simp only [List.length_take] at this
    omega
  · have := List.le_snd_of_mem_zipIdx hentry
    omega

theorem length_raiseAll : (raiseAll g levels).length = levels.length := length_foldl_raise

/-- After a round a place is above where the places it depends on were before, and above where they are now if they were raised
before it. -/
theorem Edge.lt_raiseAll (h : g.Edge i j) (hlength : levels.length = g.length) :
    levelAt levels j < levelAt (raiseAll g levels) i ∧
      (j < i → levelAt (raiseAll g levels) j < levelAt (raiseAll g levels) i) := by
  obtain ⟨places, hplaces, hj⟩ := h
  obtain ⟨before, after, hsplit, hbefore, hafter⟩ := exists_round_split hplaces
  have hi : i < (before.foldl raise levels).length := by
    rw [length_foldl_raise, hlength]
    exact (List.getElem?_eq_some_iff.mp hplaces).1
  have hround : raiseAll g levels = after.foldl raise (raise (before.foldl raise levels) (places, i)) := by
    rw [raiseAll, hsplit, List.foldl_append, List.foldl_cons]
  have hraised : levelAt (before.foldl raise levels) j < levelAt (raiseAll g levels) i := by
    rw [hround, levelAt_foldl_raise_of_ne fun entry hentry => (hafter entry hentry).ne, levelAt_raise hi, if_pos rfl]
    exact lt_raisedLevel hj
  refine ⟨Nat.lt_of_le_of_lt levelAt_le_foldl_raise hraised, fun hji => ?_⟩
  have hkept : levelAt (raiseAll g levels) j = levelAt (before.foldl raise levels) j := by
    rw [hround, levelAt_foldl_raise_of_ne fun entry hentry => (hji.trans (hafter entry hentry)).ne,
      levelAt_raise_of_ne hji.ne]
  rw [hkept]
  exact hraised

/-- What a raise keeps, a round keeps. -/
theorem raiseAll_keeps {P : List Nat → Prop}
    (hraise : ∀ levels places i, g[i]? = some places → P levels → P (raise levels (places, i))) (h : P levels) :
    P (raiseAll g levels) := by
  refine List.foldlRecOn _ _ h fun levels hlevels entry hentry => ?_
  exact hraise levels entry.1 entry.2 (List.mem_zipIdx_iff_getElem?.mp hentry) hlevels

/-! ## All rounds -/

/-- The levels after some rounds, each of them made. -/
def levelsAfter (g : LevelGraph) (n : Nat) : List Nat := (raiseAll g)^[n] (List.replicate g.length 0)

/-- One round more is made behind the others. -/
theorem levelsAfter_succ (n : Nat) : g.levelsAfter (n + 1) = raiseAll g (g.levelsAfter n) :=
  Function.iterate_succ_apply' ..

/-- To stop after a round that raised nothing makes no difference. -/
theorem levels_levelFrom (n done : Nat) : (levelFrom g n done levels).levels = (raiseAll g)^[n] levels := by
  induction n generalizing done levels with
  | zero => rfl
  | succ n ih =>
    rw [levelFrom, Function.iterate_succ_apply]
    split
    · rename_i hfixed
      rw [hfixed, Function.iterate_fixed hfixed]
    · exact ih ..

/-- The levels that are stored are those after all rounds. -/
theorem levels_level (g : LevelGraph) : g.level.levels = g.levelsAfter g.rounds := levels_levelFrom ..

/-- Before the first round every level is zero. -/
theorem levelAt_levelsAfter_zero : levelAt (g.levelsAfter 0) i = 0 := by
  simp only [levelsAfter, Function.iterate_zero_apply, levelAt, List.getD_eq_getElem?_getD, List.getElem?_replicate]
  split <;> rfl

/-- There is one level for each place, after any number of rounds. -/
theorem length_levelsAfter (n : Nat) : (g.levelsAfter n).length = g.length := by
  induction n with
  | zero => exact List.length_replicate
  | succ n ih => rw [levelsAfter_succ, length_raiseAll, ih]

/-- A level is at every time the length of a path that starts at its place. -/
theorem levelAt_levelsAfter_mem (n : Nat) : ∀ i, levelAt (g.levelsAfter n) i ∈ pathLengths g.Edge i := by
  induction n with
  | zero =>
    intro i
    rw [levelAt_levelsAfter_zero]
    exact zero_mem_pathLengths
  | succ n ih =>
    rw [levelsAfter_succ]
    refine raiseAll_keeps (P := fun levels => ∀ i, levelAt levels i ∈ pathLengths g.Edge i) ?_ ih
    intro levels places i hplaces h k
    rcases levelAt_raise_cases levels places i k with hk | ⟨rfl, j, hj, hk⟩
    · rw [hk]
      exact h k
    · rw [hk]
      exact succ_mem_pathLengths_iff.mpr ⟨j, ⟨places, hplaces, hj⟩, h j⟩

/-- After so many rounds every path of at most so many edges is counted. -/
theorem le_levelAt_levelsAfter (n : Nat) :
    ∀ {i m}, m ∈ pathLengths g.Edge i → m ≤ n → m ≤ levelAt (g.levelsAfter n) i := by
  induction n with
  | zero => exact fun _ hm => hm.trans (Nat.zero_le _)
  | succ n ih =>
    intro i m hm hle
    cases m with
    | zero => exact Nat.zero_le _
    | succ m =>
      obtain ⟨j, hij, hmj⟩ := succ_mem_pathLengths_iff.mp hm
      have hlt := (hij.lt_raiseAll (length_levelsAfter n)).1
      rw [levelsAfter_succ]
      exact Nat.lt_of_le_of_lt (ih hmj (Nat.le_of_succ_le_succ hle)) hlt

/-- An entry raises the highest level by one at most, so a round does so by the number of its entries. -/
theorem foldl_raise_le {entries : List (List Nat × Nat)} {m : Nat} (h : ∀ k, levelAt levels k ≤ m) (k : Nat) :
    levelAt (entries.foldl raise levels) k ≤ m + entries.length := by
  induction entries generalizing levels m with
  | nil => exact h k
  | cons entry entries ih =>
    have hraise : ∀ k, levelAt (raise levels entry) k ≤ m + 1 := by
      intro k
      rcases levelAt_raise_cases levels entry.1 entry.2 k with hk | ⟨-, j, -, hk⟩
      · exact (hk.trans_le (h k)).trans (Nat.le_succ m)
      · exact hk.trans_le (Nat.succ_le_succ (h j))
    have hrest := ih hraise
    rw [List.foldl_cons, List.length_cons]
    omega

/-- A round raises the highest level by at most one for each place. -/
theorem levelAt_levelsAfter_le (n : Nat) : ∀ i, levelAt (g.levelsAfter n) i ≤ n * g.length := by
  induction n with
  | zero => exact fun i => levelAt_levelsAfter_zero.trans_le (Nat.zero_le _)
  | succ n ih =>
    intro i
    have hround : levelAt (g.zipIdx.foldl raise (g.levelsAfter n)) i ≤ n * g.length + g.zipIdx.length := foldl_raise_le ih i
    rw [List.length_zipIdx] at hround
    rw [levelsAfter_succ, Nat.succ_mul]
    exact hround

/-- Enough rounds for the longest path, or one round where dependencies come first, make every level the length of the longest path
from its place. -/
theorem isGreatest_levelAt (h : (∀ i, ∀ n ∈ pathLengths g.Edge i, n ≤ g.rounds) ∨ ∀ i j, g.Edge i j → j < i) (i : Nat) :
    IsGreatest (pathLengths g.Edge i) (levelAt g.level.levels i) := by
  rw [levels_level]
  refine ⟨levelAt_levelsAfter_mem g.rounds i, fun n hn => ?_⟩
  rcases h with hshort | hback
  · exact le_levelAt_levelsAfter g.rounds hn (hshort i n hn)
  · have hedge : ∀ i j, g.Edge i j → levelAt (g.levelsAfter g.rounds) j < levelAt (g.levelsAfter g.rounds) i := by
      intro i j hij
      rw [rounds, levelsAfter_succ]
      exact (hij.lt_raiseAll (length_levelsAfter g.maxFanIn)).2 (hback i j hij)
    induction n generalizing i with
    | zero => exact Nat.zero_le _
    | succ n ih =>
      obtain ⟨j, hij, hnj⟩ := succ_mem_pathLengths_iff.mp hn
      exact Nat.lt_of_le_of_lt (ih j hnj) (hedge i j hij)

/-! ## Dependents -/

/-- The number of dependents is that of the edges to a place. -/
theorem fanIn_eq_ncard (g : LevelGraph) (j : Nat) : g.fanIn j = {i | g.Edge i j}.ncard := by
  have hg : (List.range g.length).map (fun i => g.getD i []) = g := by
    apply List.ext_getElem
    · simp
    · intro i _ hi
      simp [hi]
  have hset : {i | g.Edge i j} = ((List.range g.length).filter fun i => (g.getD i []).contains j).toFinset := by
    ext i
    simp only [Edge, Set.mem_ofPred_eq, List.coe_toFinset, List.mem_filter, List.mem_range, List.contains_iff_mem]
    by_cases hi : i < g.length <;> simp [hi]
  rw [hset, Set.ncard_coe_finset, List.toFinset_card_of_nodup (List.nodup_range.filter _), fanIn]
  conv_lhs => rw [← hg, List.countP_map, List.countP_eq_length_filter]
  rfl

/-- A bound on the largest is a bound on each. -/
theorem foldl_max_le_iff {l : List Nat} {a b : Nat} : l.foldl max a ≤ b ↔ a ≤ b ∧ ∀ x ∈ l, x ≤ b := by
  induction l generalizing a with
  | nil => simp
  | cons x l ih => rw [List.foldl_cons, ih, List.forall_mem_cons, max_le_iff, and_assoc]

/-- The largest number of dependents is the largest over all places. -/
theorem maxFanIn_eq_sup (g : LevelGraph) : g.maxFanIn = (Finset.range g.length).sup fun j => {i | g.Edge i j}.ncard := by
  refine eq_of_forall_ge_iff fun b => ?_
  rw [maxFanIn, foldl_max_le_iff, Finset.sup_le_iff]
  simp [fanIn_eq_ncard]

end LevelGraph

/-! ## The levels of listed types -/

namespace Catalog

/-- The place where a type is first listed. -/
def FirstAt (c : Catalog) (types : List TypeId) (d : TypeId) (j : Nat) : Prop :=
  (types.map c.canonical)[j]? = some d ∧ ∀ k < j, (types.map c.canonical)[k]? ≠ some d

/-- The type listed at the first place depends on one that is not primitive and is first listed at the second, another place. -/
def LevelEdge (c : Catalog) (types : List TypeId) (i j : Nat) : Prop :=
  i ≠ j ∧ ∃ a d, types[i]? = some a ∧ c.DependsOn a d ∧ (c.get d).flags.isPrimitive = false ∧ c.FirstAt types d j

/-- The largest number of places that depend on one. -/
noncomputable def mostDependents (c : Catalog) (types : List TypeId) : Nat :=
  (Finset.range types.length).sup fun j => {i | c.LevelEdge types i j}.ncard

variable {c : Catalog} {types : List TypeId} {i j : Nat}

/-- The first place of a type is the one that is looked up. -/
theorem firstAt_iff {d : TypeId} : c.FirstAt types d j ↔ (types.map c.canonical).idxOf? d = some j := by
  rw [FirstAt, List.idxOf?_eq_some_iff, List.getElem?_eq_some_iff]
  constructor
  · rintro ⟨⟨hj, hd⟩, hfirst⟩
    exact ⟨hj, hd, fun k hk he => hfirst k hk (List.getElem?_eq_some_iff.mpr ⟨hk.trans hj, he⟩)⟩
  · rintro ⟨hj, hd, hfirst⟩
    refine ⟨⟨hj, hd⟩, fun k hk he => ?_⟩
    obtain ⟨_, he'⟩ := List.getElem?_eq_some_iff.mp he
    exact hfirst k hk he'

theorem length_levelGraph : (c.levelGraph types).length = types.length := by simp [levelGraph]

/-- The edges from a place go to the first places of what its type depends on, other than itself and no primitive. -/
theorem mem_levelEdges_iff {a : TypeId} : j ∈ c.levelEdges (types.map c.canonical) (a, i) ↔
    i ≠ j ∧ ∃ d, c.DependsOn a d ∧ (c.get d).flags.isPrimitive = false ∧ c.FirstAt types d j := by
  simp only [levelEdges, List.mem_filter, List.mem_filterMap, mem_dependencies, firstAt_iff, bne_iff_ne, Bool.not_eq_true',
    and_assoc]
  rw [and_comm, ne_comm]

/-- The graph of levels has the edges of the listed types. -/
theorem edge_levelGraph_iff : (c.levelGraph types).Edge i j ↔ c.LevelEdge types i j := by
  simp only [LevelGraph.Edge, LevelEdge, levelGraph, List.getElem?_map, List.getElem?_zipIdx, Nat.zero_add]
  cases types[i]? with
  | none => simp
  | some a => simp [mem_levelEdges_iff]

/-- There is one round more than the largest number of dependents of a listed type. -/
theorem rounds_levelGraph : (c.levelGraph types).rounds = c.mostDependents types + 1 := by
  simp only [LevelGraph.rounds, LevelGraph.maxFanIn_eq_sup, mostDependents, length_levelGraph, edge_levelGraph_iff]

/-- The levels of listed types, by the number of rounds. -/
theorem levels_leveling (c : Catalog) (types : List TypeId) :
    (c.leveling types).levels = (c.levelGraph types).levelsAfter (c.mostDependents types + 1) := by
  rw [leveling, LevelGraph.levels_level, rounds_levelGraph]

/-- There is one level for each listed type. -/
theorem length_levels_leveling (c : Catalog) (types : List TypeId) : (c.leveling types).levels.length = types.length := by
  rw [levels_leveling, LevelGraph.length_levelsAfter, length_levelGraph]

theorem edge_levelGraph (c : Catalog) (types : List TypeId) : (c.levelGraph types).Edge = c.LevelEdge types := by
  funext i j
  exact propext edge_levelGraph_iff

/-- Both ends of an edge are places in the list. -/
theorem LevelEdge.lt_length (h : c.LevelEdge types i j) : i < types.length ∧ j < types.length := by
  obtain ⟨-, a, d, ha, -, -, hd, -⟩ := h
  refine ⟨(List.getElem?_eq_some_iff.mp ha).1, ?_⟩
  simpa using (List.getElem?_eq_some_iff.mp hd).1

end Catalog

/-- Listed types sorted by ascending level are the types at their places in an order of the places by ascending level, in which
places on one level ascend. -/
theorem exists_order_mergeSort {types : List TypeId} {levels : List Nat} (hlength : levels.length = types.length) :
    ∃ order : List Nat, order.Perm (List.range types.length) ∧
      (((types.zip levels).mergeSort fun a b => a.2 ≤ b.2).map (·.1)).map some = order.map (types[·]?) ∧
      order.Pairwise fun i j => levelAt levels i ≤ levelAt levels j ∧ (levelAt levels i = levelAt levels j → i < j) := by
  -- the sort is the one of the entries with their places, where places break ties
  let le : TypeId × Nat → TypeId × Nat → Bool := fun a b => decide (a.2 ≤ b.2)
  have hsorted : ((types.zip levels).zipIdx.mergeSort (List.zipIdxLE le)).Pairwise fun a b => List.zipIdxLE le a b = true :=
    List.pairwise_mergeSort (List.zipIdxLE_trans fun a b d => by simp only [le, decide_eq_true_eq]; exact Nat.le_trans)
      (List.zipIdxLE_total fun a b => by simp [le, Nat.le_total]) _
  have hperm := List.mergeSort_perm (types.zip levels).zipIdx (List.zipIdxLE le)
  have hentry : ∀ e ∈ (types.zip levels).zipIdx.mergeSort (List.zipIdxLE le),
      types[e.2]? = some e.1.1 ∧ levelAt levels e.2 = e.1.2 := by
    intro e he
    have hzip := List.mem_zipIdx_iff_getElem?.mp (hperm.mem_iff.mp he)
    obtain ⟨htype, hlevel⟩ := List.getElem?_zip_eq_some.mp hzip
    exact ⟨htype, by rw [levelAt, List.getD_eq_getElem?_getD, hlevel, Option.getD_some]⟩
  have horder : (((types.zip levels).zipIdx.mergeSort (List.zipIdxLE le)).map (·.2)).Perm (List.range types.length) := by
    refine (hperm.map _).trans (.of_eq ?_)
    rw [List.zipIdx_map_snd, List.length_zip, hlength, Nat.min_self, List.range_eq_range']
  refine ⟨_, horder, ?_, ?_⟩
  · rw [← List.mergeSort_zipIdx, List.map_map, List.map_map, List.map_map]
    exact List.map_congr_left fun e he => (hentry e he).1.symm
  · have hnodup : ((types.zip levels).zipIdx.mergeSort (List.zipIdxLE le)).Pairwise fun a b => a.2 ≠ b.2 :=
      List.pairwise_map.mp (horder.nodup_iff.mpr List.nodup_range)
    refine List.pairwise_map.mpr ((hsorted.and hnodup).imp_of_mem fun {a b} ha hb hab => ?_)
    obtain ⟨hle, hne⟩ := hab
    simp only [List.zipIdxLE, le, decide_eq_true_eq, (hentry a ha).2, (hentry b hb).2] at hle ⊢
    split at hle
    · split at hle
      · simp only [decide_eq_true_eq] at hle
        omega
      · omega
    · cases hle

namespace Catalog

/-- The levels of listed types. Level for level they are at most as high as there are rounds for every place of the list. Where the
dependencies of the list have no circle no level is above the length of the longest path from its place. If then no path has more
edges than there are rounds, or all that a place depends on stands before it, every level is the length of the longest path, and
the order by level puts every place behind those it depends on and leaves places on one level as they were. -/
theorem leveling_exact (c : Catalog) (types : List TypeId) :
    let edge := c.LevelEdge types
    let rounds := c.mostDependents types + 1
    let levels := (c.leveling types).levels
    let level := fun i => levels.getD i 0
    levels.length = types.length ∧ (∀ i, level i ≤ rounds * types.length) ∧
      ((∀ i, ¬TransGen edge i i) →
        (∀ i, ∃ longest, IsGreatest (pathLengths edge i) longest ∧ level i ≤ longest) ∧
        ((∀ i, ∀ n ∈ pathLengths edge i, n ≤ rounds) ∨ (∀ i j, edge i j → j < i) →
          (∀ i, IsGreatest (pathLengths edge i) (level i)) ∧ (c.orderByLevel types).Perm types ∧
          ∃ order : List Nat, order.Perm (List.range types.length) ∧
            (c.orderByLevel types).map some = order.map (types[·]?) ∧
            order.Pairwise fun i j => ¬edge i j ∧ (level i = level j → i < j))) := by
  intro edge rounds levels level
  have hedge : (c.levelGraph types).Edge = edge := c.edge_levelGraph types
  refine ⟨c.length_levels_leveling types, fun i => ?_, fun hacyclic => ⟨fun i => ?_, fun h => ?_⟩⟩
  · have hle := LevelGraph.levelAt_levelsAfter_le (g := c.levelGraph types) rounds i
    rwa [← levels_leveling, length_levelGraph] at hle
  · obtain ⟨longest, hlongest⟩ := exists_isGreatest_pathLengths hacyclic (fun _ _ => LevelEdge.lt_length) i
    have hmem := LevelGraph.levelAt_levelsAfter_mem (g := c.levelGraph types) rounds i
    rw [← levels_leveling, hedge] at hmem
    exact ⟨longest, hlongest, hlongest.2 hmem⟩
  · have hgreatest : ∀ i, IsGreatest (pathLengths edge i) (level i) := by
      have hrounds : (c.levelGraph types).rounds = rounds := rounds_levelGraph
      rw [← hedge, ← hrounds] at h
      rw [← hedge]
      exact LevelGraph.isGreatest_levelAt h
    obtain ⟨order, hperm, hmap, horder⟩ := exists_order_mergeSort (c.length_levels_leveling types)
    refine ⟨hgreatest, ?_, order, hperm, hmap, horder.imp fun {i j} hij => ⟨fun he => ?_, hij.2⟩⟩
    · have hzip := (List.mergeSort_perm (types.zip levels) fun a b => a.2 ≤ b.2).map (·.1)
      rwa [List.map_fst_zip (c.length_levels_leveling types).ge] at hzip
    · -- the path from the second place goes on from the first
      have hlt : level j + 1 ≤ level i := (hgreatest i).2 (succ_mem_pathLengths_iff.mpr ⟨j, he, (hgreatest j).1⟩)
      exact absurd hij.1 (Nat.not_le_of_lt hlt)

/-- Types listed before what they depend on, with a primitive one behind them: there is a round for every edge of the longest path,
since one of them has two dependents. -/
theorem leveling_exact_for_listed_first :
    let use (i : Nat) : Property := { name := "use", type := ⟨i⟩ }
    let a : TypeDef := { name := "A", bases := [⟨1⟩], properties := [use 2, use 3] }
    let b : TypeDef := { name := "B", properties := [use 2] }
    let int : TypeDef := { name := "int", flags := { isPrimitive := true } }
    let c := ((((empty.register a).2.register b).2.register { name := "C" }).2.register int).2
    let types : List TypeId := [⟨0⟩, ⟨1⟩, ⟨2⟩, ⟨3⟩]
    (∀ i, ¬TransGen (c.LevelEdge types) i i) ∧
      (∀ i, ∀ n ∈ pathLengths (c.LevelEdge types) i, n ≤ c.mostDependents types + 1) ∧
      (c.leveling types).levels = [2, 1, 0, 0] ∧
      (∀ i, IsGreatest (pathLengths (c.LevelEdge types) i) ((c.leveling types).levels.getD i 0)) ∧
      (c.orderByLevel types).Perm types ∧
      ∃ order : List Nat, order.Perm (List.range 4) ∧ (c.orderByLevel types).map some = order.map (types[·]?) ∧
        order.Pairwise fun i j => ¬c.LevelEdge types i j ∧
          ((c.leveling types).levels.getD i 0 = (c.leveling types).levels.getD j 0 → i < j) := by
  have hread :
      let use (i : Nat) : Property := { name := "use", type := ⟨i⟩ }
      let a : TypeDef := { name := "A", bases := [⟨1⟩], properties := [use 2, use 3] }
      let b : TypeDef := { name := "B", properties := [use 2] }
      let int : TypeDef := { name := "int", flags := { isPrimitive := true } }
      let c := ((((empty.register a).2.register b).2.register { name := "C" }).2.register int).2
      let types : List TypeId := [⟨0⟩, ⟨1⟩, ⟨2⟩, ⟨3⟩]
      c.levelGraph types = [[1, 2], [2], [], []] ∧ (c.leveling types).levels = [2, 1, 0, 0] := by
    decide +kernel
  intro use a b int c types
  obtain ⟨hgraph, hlevels⟩ : c.levelGraph types = [[1, 2], [2], [], []] ∧ (c.leveling types).levels = [2, 1, 0, 0] := hread
  have hforward : ∀ i j, c.LevelEdge types i j → i < j := by
    rw [← edge_levelGraph, hgraph]
    rintro i j ⟨places, hplaces, hj⟩
    rcases i with _ | _ | _ | _ | i <;> simp at hplaces <;> subst hplaces <;> simp at hj <;> omega
  have hacyclic := not_transGen_of_lt hforward
  have hshort : ∀ i, ∀ n ∈ pathLengths (c.LevelEdge types) i, n ≤ c.mostDependents types + 1 := by
    intro i n hn
    have hn : n = 0 ∨ n < 4 := lt_size_of_mem_pathLengths hacyclic (fun _ _ => LevelEdge.lt_length) hn
    have hrounds : LevelGraph.rounds [[1, 2], [2], [], []] = 3 := by decide
    rw [← rounds_levelGraph, hgraph, hrounds]
    omega
  obtain ⟨-, -, hexact⟩ := leveling_exact c types
  exact ⟨hacyclic, hshort, hlevels, (hexact hacyclic).2 (Or.inl hshort)⟩

end Catalog

end HeaderAtlas
