import Mathlib.Data.Fintype.Card
import Mathlib.Data.List.Count
import Mathlib.Data.List.Nodup
import Mathlib.Data.List.Sort
import Mathlib.Data.List.Perm.Subperm
import Mathlib.Data.Set.Finite.Basic
import Mathlib.Logic.Function.Basic
import Mathlib.Order.Defs.LinearOrder
import Mathlib.Order.WellFounded

/-!
# Kahn's algorithm

A dependency graph is a list of nodes, each with the nodes it depends on.
Kahn's algorithm visits a node once all its dependencies are visited; `findCycle`
answers the nodes it could not visit, which are those that reach a cycle.

The invariant `Inv` says what the counters mean: the indegree of a node is the
number of its dependencies, with repetition, that are not yet visited, and a
node is visited or queued exactly when that number is zero.
-/

namespace Kahn

variable {α : Type} [LinearOrder α]

/-- The nodes with their dependencies; a node has one entry. -/
abbrev Graph (α : Type) := List (α × List α)

def nodes (graph : Graph α) : List α := graph.map Prod.fst

def depsOf (graph : Graph α) (x : α) : List α := (graph.lookup x).getD []

/-- The nodes that depend on `x`, one occurrence for each dependency. -/
def dependents (graph : Graph α) (x : α) : List α :=
  graph.flatMap fun node => List.replicate (node.2.count x) node.1

/-- `visited` holds the nodes taken from the queue, the latest first. -/
structure State (α : Type) where
  queue : List α
  indegree : α → ℕ
  visited : List α

def start (graph : Graph α) : State α where
  queue := ((nodes graph).filter fun x => (depsOf graph x).length = 0).insertionSort (· ≤ ·)
  indegree x := (depsOf graph x).length
  visited := []

/-- One dependency of `x` has been visited. -/
def release (queueAndIndegree : List α × (α → ℕ)) (x : α) : List α × (α → ℕ) :=
  let indegree := Function.update queueAndIndegree.2 x (queueAndIndegree.2 x - 1)
  (if indegree x = 0 then queueAndIndegree.1 ++ [x] else queueAndIndegree.1, indegree)

/-- Visit the first node of the queue. -/
def visit (graph : Graph α) (s : State α) : Option (State α) :=
  match s.queue with
  | [] => none
  | current :: rest =>
      let released := ((dependents graph current).insertionSort (· ≤ ·)).foldl release
        (rest, s.indegree)
      some ⟨released.1, released.2, current :: s.visited⟩

/-- Visit until the queue is empty. -/
def loop (graph : Graph α) : ℕ → State α → State α
  | 0, s => s
  | fuel + 1, s =>
      match visit graph s with
      | none => s
      | some next => loop graph fuel next

def finish (graph : Graph α) : State α := loop graph graph.length (start graph)

/-- The nodes left over when the queue has run empty, or `none` if there are none. -/
def findCycle (graph : Graph α) : Option (List α) :=
  if (finish graph).visited.length = graph.length then none
  else some (((nodes graph).filter fun x => 0 < (finish graph).indegree x).insertionSort (· ≤ ·))

/-! ## Releasing the dependents of one node -/

theorem foldl_release (released : List α) :
    ∀ (queue : List α) (indegree : α → ℕ), (∀ x, released.count x ≤ indegree x) →
      ∃ freed : List α, freed.Nodup ∧
        (∀ x, x ∈ freed ↔ x ∈ released ∧ indegree x = released.count x) ∧
        released.foldl release (queue, indegree) =
          (queue ++ freed, fun x => indegree x - released.count x) := by
  induction released with
  | nil => intro queue indegree _; exact ⟨[], by simp⟩
  | cons d rest ih =>
      intro queue indegree hcount
      have hpos : rest.count d + 1 ≤ indegree d := by simpa using hcount d
      -- what is left of the list can still be subtracted once `d` is
      have hrest : ∀ x, rest.count x ≤ Function.update indegree d (indegree d - 1) x := by
        intro x
        have := hcount x
        by_cases hx : x = d
        · subst hx; simp; omega
        · simpa [Function.update_of_ne hx, List.count_cons_of_ne (Ne.symm hx)] using this
      have hfinal : (fun x => Function.update indegree d (indegree d - 1) x - rest.count x) =
          fun x => indegree x - (d :: rest).count x := by
        funext x
        by_cases hx : x = d
        · subst hx; simp; omega
        · simp [Function.update_of_ne hx, List.count_cons_of_ne (Ne.symm hx)]
      rw [List.foldl_cons]
      -- `d` joins the queue when this was the last edge into it
      by_cases hzero : indegree d - 1 = 0
      · obtain ⟨freed, hnodup, hmem, heq⟩ := ih (queue ++ [d]) _ hrest
        -- so it does not come up again
        have hcountzero : rest.count d = 0 := by omega
        have hnotin : d ∉ rest := by simpa [List.count_eq_zero] using hcountzero
        refine ⟨d :: freed, ?_, ?_, ?_⟩
        · exact List.nodup_cons.mpr ⟨fun hd => hnotin ((hmem d).mp hd).1, hnodup⟩
        · intro x
          by_cases hx : x = d
          · subst hx
            simp only [List.mem_cons, true_or, List.count_cons_self, true_and, true_iff]
            omega
          · simp [hx, hmem, List.count_cons_of_ne (Ne.symm hx)]
        · simp only [release, Function.update_self, if_pos hzero]
          rw [heq, hfinal, List.append_assoc]
          rfl
      -- `d` waits for further edges
      · obtain ⟨freed, hnodup, hmem, heq⟩ := ih queue _ hrest
        refine ⟨freed, hnodup, ?_, ?_⟩
        · intro x
          by_cases hx : x = d
          · subst hx
            simp only [hmem, Function.update_self, List.mem_cons, true_or, true_and,
              List.count_cons_self]
            constructor
            · rintro ⟨_, h⟩; omega
            · intro h
              have hne : rest.count x ≠ 0 := by omega
              exact ⟨List.count_pos_iff.mp (Nat.pos_of_ne_zero hne), by omega⟩
          · simp [hx, hmem, List.count_cons_of_ne (Ne.symm hx)]
        · simp only [release, Function.update_self, if_neg hzero]
          rw [heq, hfinal]

/-! ## The invariant -/

/-- A list, latest first, in which every node comes after its dependencies. -/
def Ordered (graph : Graph α) : List α → Prop
  | [] => True
  | x :: earlier => (∀ d ∈ depsOf graph x, d ∈ earlier) ∧ Ordered graph earlier

/-- How many dependencies of `x` are not visited yet. -/
def missing (graph : Graph α) (visited : List α) (x : α) : ℕ :=
  (depsOf graph x).countP fun d => d ∉ visited

structure Inv (graph : Graph α) (s : State α) : Prop where
  nodup : (s.visited ++ s.queue).Nodup
  known : ∀ x ∈ s.visited ++ s.queue, x ∈ nodes graph
  indegree : ∀ x ∈ nodes graph, s.indegree x = missing graph s.visited x
  reached_iff : ∀ x ∈ nodes graph, x ∈ s.visited ++ s.queue ↔ s.indegree x = 0
  ordered : Ordered graph s.visited

theorem depsOf_cons (node : α × List α) (rest : Graph α) (x : α) :
    depsOf (node :: rest) x = if x = node.1 then node.2 else depsOf rest x := by
  obtain ⟨y, deps⟩ := node
  by_cases hx : x = y
  · simp [depsOf, hx]
  · have hne : (x == y) = false := by simpa using hx
    simp [depsOf, List.lookup_cons, hne, hx]

theorem depsOf_of_mem {graph : Graph α} (hkeys : (nodes graph).Nodup) {x : α} {deps : List α}
    (h : (x, deps) ∈ graph) : depsOf graph x = deps := by
  induction graph with
  | nil => simp at h
  | cons node rest ih =>
      obtain ⟨hnode, hrest⟩ := List.nodup_cons.mp hkeys
      rcases List.mem_cons.mp h with rfl | h
      · simp [depsOf_cons]
      · have hne : x ≠ node.1 := fun heq =>
          hnode (List.mem_map.mpr ⟨(x, deps), h, heq⟩)
        rw [depsOf_cons, if_neg hne, ih hrest h]

theorem count_dependents {graph : Graph α} (hkeys : (nodes graph).Nodup) (x y : α) :
    (dependents graph x).count y = if y ∈ nodes graph then (depsOf graph y).count x else 0 := by
  induction graph with
  | nil => simp [dependents, nodes]
  | cons node rest ih =>
      obtain ⟨hnode, hrest⟩ := List.nodup_cons.mp hkeys
      have hsplit : (dependents (node :: rest) x).count y =
          (List.replicate (node.2.count x) node.1).count y + (dependents rest x).count y := by
        simp [dependents, List.count_append]
      rw [hsplit, ih hrest, List.count_replicate]
      by_cases hy : y = node.1
      · subst hy
        have hhead : node.1 ∈ nodes (node :: rest) := by simp [nodes]
        rw [if_neg (show node.1 ∉ nodes rest from hnode), if_pos hhead, depsOf_cons, if_pos rfl]
        simp
      · have hmem : y ∈ nodes (node :: rest) ↔ y ∈ nodes rest := by simp [nodes, hy]
        have hdeps : depsOf (node :: rest) y = depsOf rest y := by
          rw [depsOf_cons, if_neg hy]
        simp [Ne.symm hy, hmem, hdeps]

theorem inv_start {graph : Graph α} (hkeys : (nodes graph).Nodup) : Inv graph (start graph) where
  nodup := by
    simpa [start] using ((List.perm_insertionSort _ _).nodup_iff).mpr (hkeys.filter _)
  known x hx := by
    have hx : x ∈ (start graph).queue := by simpa [start] using hx
    exact (List.mem_filter.mp ((List.mem_insertionSort _).mp hx)).1
  indegree x _ := by simp [start, missing]
  reached_iff x hx := by simp [start, List.mem_insertionSort, hx]
  ordered := trivial

theorem missing_cons (graph : Graph α) {visited : List α} {current : α}
    (hcurrent : current ∉ visited) (x : α) :
    missing graph (current :: visited) x + (depsOf graph x).count current =
      missing graph visited x := by
  unfold missing
  induction depsOf graph x with
  | nil => simp
  | cons d rest ih =>
      rw [List.countP_cons, List.countP_cons, List.count_cons, ← ih]
      by_cases hd : d = current
      · subst hd; simp [hcurrent]; omega
      · simp [hd]; omega

theorem visit_inv {graph : Graph α} (hkeys : (nodes graph).Nodup) {s next : State α}
    (hinv : Inv graph s) (hvisit : visit graph s = some next) :
    Inv graph next ∧ next.visited.length = s.visited.length + 1 := by
  cases hqueue : s.queue with
  | nil => simp [visit, hqueue] at hvisit
  | cons current rest =>
      have hmemqueue : current ∈ s.visited ++ s.queue := by simp [hqueue]
      have hcurrent : current ∉ s.visited := fun h =>
        (List.nodup_append.mp hinv.nodup).2.2 _ h _ (by simp [hqueue]) rfl
      -- visiting a node takes away one for each edge from it
      have hlost : ∀ x, ((dependents graph current).insertionSort (· ≤ ·)).count x =
          if x ∈ nodes graph then (depsOf graph x).count current else 0 := by
        intro x
        rw [(List.perm_insertionSort _ _).count_eq, count_dependents hkeys]
      -- none of the counts is exceeded, for these edges were still missing
      have hbound : ∀ x, ((dependents graph current).insertionSort (· ≤ ·)).count x ≤
          s.indegree x := by
        intro x
        rw [hlost]
        split
        case isTrue hx =>
          rw [hinv.indegree x hx, ← missing_cons graph hcurrent]
          omega
        case isFalse => exact Nat.zero_le _
      obtain ⟨freed, hfreed, hmem, heq⟩ := foldl_release _ rest s.indegree hbound
      simp only [visit, hqueue, heq, Option.some.injEq] at hvisit
      subst hvisit
      -- the freed nodes: their last missing dependency was the current one
      have hfreedIff : ∀ x ∈ nodes graph, x ∈ freed ↔
          s.indegree x ≠ 0 ∧ missing graph (current :: s.visited) x = 0 := by
        intro x hx
        have hmissing := missing_cons graph hcurrent x
        have hindegree := hinv.indegree x hx
        rw [hmem, ← List.count_pos_iff, hlost, if_pos hx]
        omega
      have hfreedKnown : ∀ x ∈ freed, x ∈ nodes graph := by
        intro x hx
        have hpos := List.count_pos_iff.mpr ((hmem x).mp hx).1
        rw [hlost] at hpos
        by_contra hnot
        simp [hnot] at hpos
      refine ⟨⟨?nodup, ?known, ?indegree, ?reached, ?ordered⟩, rfl⟩
      -- a freed node was reached neither before nor from the queue
      case nodup =>
        have hold : (s.visited ++ current :: rest).Nodup := hqueue ▸ hinv.nodup
        have hperm : (current :: s.visited ++ (rest ++ freed)).Perm
            ((s.visited ++ current :: rest) ++ freed) := by
          simp only [List.cons_append, List.append_assoc]
          exact List.perm_middle.symm
        refine hperm.nodup_iff.mpr (List.nodup_append.mpr ⟨hold, hfreed, ?_⟩)
        rintro a ha b hb rfl
        have hknown := hfreedKnown a hb
        exact ((hfreedIff a hknown).mp hb).1
          ((hinv.reached_iff a hknown).mp (by simpa [hqueue] using ha))
      -- the graph's nodes are closed under the step
      case known =>
        intro x hx
        simp only [List.cons_append, List.mem_cons, List.mem_append] at hx
        rcases hx with rfl | hx | hx | hx
        · exact hinv.known _ hmemqueue
        · exact hinv.known x (by simp [hx])
        · exact hinv.known x (by simp [hqueue, hx])
        · exact hfreedKnown x hx
      case indegree =>
        intro x hx
        have hmissing := missing_cons graph hcurrent x
        have hindegree := hinv.indegree x hx
        simp only [hlost, if_pos hx]
        omega
      case reached =>
        intro x hx
        have hold := hinv.reached_iff x hx
        have hmissing := missing_cons graph hcurrent x
        have hindegree := hinv.indegree x hx
        simp only [hlost, if_pos hx]
        have hsplit : x ∈ current :: s.visited ++ (rest ++ freed) ↔
            x ∈ s.visited ++ s.queue ∨ x ∈ freed := by
          simp [hqueue]; tauto
        rw [hsplit, hold, hfreedIff x hx]
        omega
      -- the visited node had all its dependencies visited before it
      case ordered =>
        refine ⟨fun d hd => ?_, hinv.ordered⟩
        have hzero : missing graph s.visited current = 0 := by
          have hknown := hinv.known _ hmemqueue
          rw [← hinv.indegree _ hknown]
          exact (hinv.reached_iff _ hknown).mp hmemqueue
        have := List.countP_eq_zero.mp hzero d hd
        simpa using this

/-! ## Runs of the loop -/

theorem loop_inv {graph : Graph α} (hkeys : (nodes graph).Nodup) :
    ∀ (fuel : ℕ) {s : State α}, Inv graph s → Inv graph (loop graph fuel s) := by
  intro fuel
  induction fuel with
  | zero => intro s hinv; exact hinv
  | succ fuel ih =>
      intro s hinv
      cases hvisit : visit graph s with
      | none => simpa [loop, hvisit] using hinv
      | some next => simpa [loop, hvisit] using ih (visit_inv hkeys hinv hvisit).1

theorem finish_inv {graph : Graph α} (hkeys : (nodes graph).Nodup) : Inv graph (finish graph) :=
  loop_inv hkeys _ (inv_start hkeys)

theorem idxOf_lt_of_ordered {graph : Graph α} {x d : α} (hd : d ∈ depsOf graph x) :
    ∀ {visited : List α}, Ordered graph visited → visited.Nodup → x ∈ visited →
      d ∈ visited ∧ visited.idxOf x < visited.idxOf d := by
  intro visited
  induction visited with
  | nil => intro _ _ hx; simp at hx
  | cons y earlier ih =>
      intro hordered hnodup hx
      obtain ⟨hdeps, hearlier⟩ := hordered
      obtain ⟨hy, hnodup⟩ := List.nodup_cons.mp hnodup
      by_cases hxy : x = y
      · subst hxy
        have hmem := hdeps d hd
        have hne : x ≠ d := fun h => hy (h ▸ hmem)
        simp [hne, hmem]
      · have hxmem : x ∈ earlier := by simpa [hxy] using hx
        obtain ⟨hmem, hlt⟩ := ih hearlier hnodup hxmem
        have hne : y ≠ d := fun h => hy (h ▸ hmem)
        simp [hne, Ne.symm hxy, hmem, hlt]

/-- If every node is visited, the nodes can be numbered so that dependencies have
smaller numbers: the graph has no cycle. -/
theorem exists_rank_of_findCycle_eq_none {graph : Graph α} (hkeys : (nodes graph).Nodup)
    (h : findCycle graph = none) :
    ∃ rank : α → ℕ, ∀ x ∈ nodes graph, ∀ d ∈ depsOf graph x, rank d < rank x := by
  have hinv := finish_inv hkeys
  have hlength : (finish graph).visited.length = (nodes graph).length := by
    unfold findCycle at h
    split at h
    case isTrue heq => simpa [nodes] using heq
    case isFalse => simp at h
  have hnodup := (List.nodup_append.mp hinv.nodup).1
  have hsubperm : (finish graph).visited.Subperm (nodes graph) :=
    List.Nodup.subperm hnodup fun x hx => hinv.known x (List.mem_append_left _ hx)
  have hperm := hsubperm.perm_of_length_le hlength.ge
  refine ⟨fun x => (finish graph).visited.length - (finish graph).visited.idxOf x, ?_⟩
  intro x hx d hd
  obtain ⟨hdmem, hlt⟩ :=
    idxOf_lt_of_ordered hd hinv.ordered hnodup (hperm.mem_iff.mpr hx)
  have := List.idxOf_lt_length_of_mem hdmem
  show _ - _ < _ - _
  omega

/-! ## Completeness -/

/-- The loop ends with an empty queue, unless the fuel runs out first. -/
theorem loop_progress {graph : Graph α} (hkeys : (nodes graph).Nodup) :
    ∀ (fuel : ℕ) {s : State α}, Inv graph s → (loop graph fuel s).queue = [] ∨
      (loop graph fuel s).visited.length = s.visited.length + fuel := by
  intro fuel
  induction fuel with
  | zero => exact fun _ => Or.inr rfl
  | succ fuel ih =>
      intro s hinv
      cases hvisit : visit graph s with
      | none =>
          refine Or.inl ?_
          cases hqueue : s.queue with
          | nil => simp [loop, hvisit, hqueue]
          | cons current rest => simp [visit, hqueue] at hvisit
      | some next =>
          obtain ⟨hnext, hlength⟩ := visit_inv hkeys hinv hvisit
          have hloop : loop graph (fuel + 1) s = loop graph fuel next := by simp [loop, hvisit]
          rw [hloop]
          refine (ih hnext).imp_right fun hlonger => ?_
          omega

/-- If the loop has visited every node, it has visited as many as there are. -/
theorem length_visited_of_forall {graph : Graph α} (hkeys : (nodes graph).Nodup)
    (h : ∀ x ∈ nodes graph, x ∈ (finish graph).visited) :
    (finish graph).visited.length = graph.length := by
  have hinv := finish_inv hkeys
  have hnodup := (List.nodup_append.mp hinv.nodup).1
  have hperm : (finish graph).visited.Perm (nodes graph) :=
    (List.perm_ext_iff_of_nodup hnodup hkeys).mpr fun x =>
      ⟨fun hx => hinv.known x (List.mem_append_left _ hx), h x⟩
  rw [hperm.length_eq, nodes, List.length_map]

/-- The queue has run empty at the end, unless every node was visited. -/
theorem finish_progress {graph : Graph α} (hkeys : (nodes graph).Nodup) :
    (finish graph).queue = [] ∨ (finish graph).visited.length = graph.length := by
  refine (loop_progress hkeys graph.length (inv_start hkeys)).imp_right fun hlength => ?_
  rw [finish, hlength]
  exact Nat.zero_add _

/-- A cycle that is reported has a node. -/
theorem findCycle_ne_some_nil {graph : Graph α} (hkeys : (nodes graph).Nodup) :
    findCycle graph ≠ some [] := by
  intro h
  unfold findCycle at h
  split at h
  case isTrue => cases h
  case isFalse hmissed =>
    have hinv := finish_inv hkeys
    have hqueue := (finish_progress hkeys).resolve_right hmissed
    refine hmissed (length_visited_of_forall hkeys fun x hx => ?_)
    have hnone : ∀ y ∈ nodes graph, ¬ 0 < (finish graph).indegree y := by
      intro y hy hpos
      have hmem : y ∈ (nodes graph).filter fun x => 0 < (finish graph).indegree x :=
        List.mem_filter.mpr ⟨hy, decide_eq_true hpos⟩
      rw [← List.mem_insertionSort (· ≤ ·), Option.some.inj h] at hmem
      exact List.not_mem_nil hmem
    have hreached := (hinv.reached_iff x hx).mpr (Nat.eq_zero_of_not_pos (hnone x hx))
    rwa [hqueue, List.append_nil] at hreached

/-! ## Cycles -/

/-- `x` depends directly on `d`. -/
def DependsOn (graph : Graph α) (x d : α) : Prop := d ∈ depsOf graph x

/-- `x` lies on a cycle, or depends on a node that does. -/
def ReachesCycle (graph : Graph α) (x : α) : Prop :=
  ∃ y, Relation.ReflTransGen (DependsOn graph) x y ∧ Relation.TransGen (DependsOn graph) y y

theorem DependsOn.mem_nodes {graph : Graph α} {x d : α} (h : DependsOn graph x d) :
    x ∈ nodes graph := by
  induction graph with
  | nil => simp [DependsOn, depsOf] at h
  | cons node rest ih =>
      rw [DependsOn, depsOf_cons] at h
      by_cases hx : x = node.1
      · exact List.mem_cons.mpr (Or.inl hx)
      · rw [if_neg hx] at h
        exact List.mem_cons_of_mem _ (ih h)

/-- A walk that can always go on in a finite set comes to a cycle. -/
theorem exists_cycle {β : Type} {r : β → β → Prop} {left : List β}
    (hnext : ∀ x ∈ left, ∃ y ∈ left, r x y) {x : β} (hx : x ∈ left) :
    ∃ y, Relation.ReflTransGen r x y ∧ Relation.TransGen r y y := by
  by_contra hnone
  let Reached := {y // y ∈ left ∧ Relation.ReflTransGen r x y}
  have hfinite : Finite Reached :=
    (left.finite_toSet.subset fun y (hy : y ∈ left ∧ _) => hy.1).to_subtype
  let later (a b : Reached) : Prop := Relation.TransGen r b.1 a.1
  have : IsTrans Reached later := ⟨fun _ _ _ hab hbc => hbc.trans hab⟩
  have : Std.Irrefl later := ⟨fun a ha => hnone ⟨a.1, a.2.2, ha⟩⟩
  -- a node from which the walk comes to no other
  obtain ⟨last, -, hlast⟩ := (Finite.wellFounded_of_trans_of_irrefl later).has_min Set.univ
    ⟨⟨x, hx, .refl⟩, trivial⟩
  obtain ⟨y, hy, hstep⟩ := hnext last.1 last.2.1
  exact hlast ⟨y, hy, last.2.2.tail hstep⟩ trivial (.single hstep)

/-- The queue has run empty at the end. -/
theorem finish_queue {graph : Graph α} (hkeys : (nodes graph).Nodup) :
    (finish graph).queue = [] := by
  refine (finish_progress hkeys).elim id fun hlength => ?_
  have hinv := finish_inv hkeys
  have hsubperm : ((finish graph).visited ++ (finish graph).queue).Subperm (nodes graph) :=
    List.Nodup.subperm hinv.nodup fun x hx => hinv.known x hx
  have hle := hsubperm.length_le
  rw [List.length_append, hlength, nodes, List.length_map] at hle
  exact List.length_eq_zero_iff.mp (by omega)

/-- All that a visited node depends on was visited before it. -/
theorem idxOf_lt_of_transGen {graph : Graph α} {visited : List α} (hordered : Ordered graph visited)
    (hnodup : visited.Nodup) {x y : α} (hx : x ∈ visited)
    (h : Relation.TransGen (DependsOn graph) x y) :
    y ∈ visited ∧ visited.idxOf x < visited.idxOf y := by
  induction h with
  | single hstep => exact idxOf_lt_of_ordered hstep hordered hnodup hx
  | tail _ hstep ih =>
      obtain ⟨hmem, hlt⟩ := idxOf_lt_of_ordered hstep hordered hnodup ih.1
      exact ⟨hmem, ih.2.trans hlt⟩

/-- The nodes that are not visited are those that reach a cycle. -/
theorem mem_visited_iff {graph : Graph α} (hkeys : (nodes graph).Nodup)
    (hknown : ∀ x ∈ nodes graph, ∀ d ∈ depsOf graph x, d ∈ nodes graph) {x : α}
    (hx : x ∈ nodes graph) : x ∈ (finish graph).visited ↔ ¬ ReachesCycle graph x := by
  have hinv := finish_inv hkeys
  have hnodup := (List.nodup_append.mp hinv.nodup).1
  constructor
  · rintro hvisited ⟨y, hreach, hcycle⟩
    have hy : y ∈ (finish graph).visited := by
      rcases Relation.reflTransGen_iff_eq_or_transGen.mp hreach with rfl | hreach
      · exact hvisited
      · exact (idxOf_lt_of_transGen hinv.ordered hnodup hvisited hreach).1
    exact lt_irrefl _ (idxOf_lt_of_transGen hinv.ordered hnodup hy hcycle).2
  · intro hacyclic
    by_contra hleft
    have hnext : ∀ y ∈ (nodes graph).filter fun y => y ∉ (finish graph).visited,
        ∃ d ∈ (nodes graph).filter fun y => y ∉ (finish graph).visited, DependsOn graph y d := by
      intro y hy
      obtain ⟨hnode, hopen⟩ := List.mem_filter.mp hy
      -- the counter of a node that is left over counts a dependency that is left over
      have hpositive : missing graph (finish graph).visited y ≠ 0 := by
        rw [← hinv.indegree y hnode]
        intro hzero
        have hreached := (hinv.reached_iff y hnode).mpr hzero
        rw [finish_queue hkeys, List.append_nil] at hreached
        simp [hreached] at hopen
      obtain ⟨d, hd, hnew⟩ := List.countP_pos_iff.mp (Nat.pos_of_ne_zero hpositive)
      exact ⟨d, List.mem_filter.mpr ⟨hknown y hnode d hd, hnew⟩, hd⟩
    exact hacyclic (exists_cycle hnext (List.mem_filter.mpr ⟨hx, by simpa using hleft⟩))

/-- A number that falls along each dependency falls along every path. -/
theorem rank_lt_of_transGen {graph : Graph α} {rank : α → ℕ}
    (hrank : ∀ x ∈ nodes graph, ∀ d ∈ depsOf graph x, rank d < rank x) {x y : α}
    (h : Relation.TransGen (DependsOn graph) x y) : rank y < rank x := by
  induction h with
  | single hstep => exact hrank _ hstep.mem_nodes _ hstep
  | tail _ hstep ih => exact (hrank _ hstep.mem_nodes _ hstep).trans ih

/-- Every node is visited exactly if there is no cycle. -/
theorem findCycle_eq_none_iff {graph : Graph α} (hkeys : (nodes graph).Nodup)
    (hknown : ∀ x ∈ nodes graph, ∀ d ∈ depsOf graph x, d ∈ nodes graph) :
    findCycle graph = none ↔ ∀ x, ¬ Relation.TransGen (DependsOn graph) x x := by
  constructor
  · intro h x hcycle
    obtain ⟨rank, hrank⟩ := exists_rank_of_findCycle_eq_none hkeys h
    exact lt_irrefl _ (rank_lt_of_transGen hrank hcycle)
  · intro hacyclic
    refine if_pos (length_visited_of_forall hkeys fun x hx => ?_)
    exact (mem_visited_iff hkeys hknown hx).mpr fun ⟨y, _, hcycle⟩ => hacyclic y hcycle

/-- If the dependencies are nodes that can be numbered so, every node is visited. -/
theorem findCycle_eq_none_of_rank {graph : Graph α} (hkeys : (nodes graph).Nodup) (rank : α → ℕ)
    (hrank : ∀ x ∈ nodes graph, ∀ d ∈ depsOf graph x, d ∈ nodes graph ∧ rank d < rank x) :
    findCycle graph = none :=
  (findCycle_eq_none_iff hkeys fun x hx d hd => (hrank x hx d hd).1).mpr fun _ hcycle =>
    lt_irrefl _ (rank_lt_of_transGen (fun x hx d hd => (hrank x hx d hd).2) hcycle)

/-- What is reported is, in order, the nodes that reach a cycle. -/
theorem findCycle_eq_some {graph : Graph α} (hkeys : (nodes graph).Nodup)
    (hknown : ∀ x ∈ nodes graph, ∀ d ∈ depsOf graph x, d ∈ nodes graph) {left : List α}
    (h : findCycle graph = some left) :
    left.Pairwise (· < ·) ∧ ∀ x, x ∈ left ↔ ReachesCycle graph x := by
  have hinv := finish_inv hkeys
  unfold findCycle at h
  split at h
  case isTrue => cases h
  case isFalse =>
    obtain rfl := Option.some.inj h
    have hsorted := List.pairwise_insertionSort (· ≤ ·)
      ((nodes graph).filter fun x => 0 < (finish graph).indegree x)
    have hnodup := (List.perm_insertionSort (· ≤ ·) _).nodup_iff.mpr
      (hkeys.filter fun x => decide (0 < (finish graph).indegree x))
    refine ⟨hsorted.imp₂ (fun _ _ hle hne => lt_of_le_of_ne hle hne) hnodup, fun x => ?_⟩
    rw [List.mem_insertionSort, List.mem_filter, decide_eq_true_iff, Nat.pos_iff_ne_zero]
    have hleft (hx : x ∈ nodes graph) : (finish graph).indegree x ≠ 0 ↔ ReachesCycle graph x := by
      rw [← not_iff_not, not_not, ← mem_visited_iff hkeys hknown hx, ← hinv.reached_iff x hx,
        finish_queue hkeys, List.append_nil]
    constructor
    · exact fun ⟨hx, hpositive⟩ => (hleft hx).mp hpositive
    · rintro ⟨y, hreach, hcycle⟩
      have hx : x ∈ nodes graph := by
        rcases Relation.ReflTransGen.cases_head hreach with rfl | ⟨d, hstep, _⟩
        · obtain ⟨d, hstep, _⟩ := Relation.TransGen.head'_iff.mp hcycle
          exact hstep.mem_nodes
        · exact hstep.mem_nodes
      exact ⟨hx, (hleft hx).mpr ⟨y, hreach, hcycle⟩⟩

end Kahn
