import Mathlib.Data.Finset.Card
import Mathlib.Data.List.Nodup
import Mathlib.Logic.Function.Basic
import Mathlib.Logic.Relation
import SqliteMultimodal.Lib.Fuel

universe u

namespace Tarjan

section Defs

variable {V : Type u} [DecidableEq V]

/-- `low` is the smallest index that a node is known to lead to. -/
structure State (V : Type u) where
  index : V → Option Nat
  low : V → Nat
  stack : List V
  next : Nat
  comps : List (List V)

namespace State

def start : State V := ⟨fun _ => none, fun _ => 0, [], 0, []⟩

def enter (s : State V) (v : V) : State V where
  index := Function.update s.index v (some s.next)
  low := Function.update s.low v s.next
  stack := v :: s.stack
  next := s.next + 1
  comps := s.comps

def lower (s : State V) (v : V) (k : Nat) : State V :=
  { s with low := Function.update s.low v (min (s.low v) k) }

end State

def popTo (v : V) : List V → List V × List V
  | [] => ([], [])
  | x :: xs => if x = v then ([x], xs) else (x :: (popTo v xs).1, (popTo v xs).2)

def State.leave (s : State V) (v : V) : State V :=
  if s.index v = some (s.low v) then
    { s with stack := (popTo v s.stack).2, comps := s.comps ++ [(popTo v s.stack).1] }
  else s

def follow (connect : V → State V → Option (State V)) (v : V) (s : State V) (w : V) :
    Option (State V) :=
  match s.index w with
  | none => (connect w s).map fun s => s.lower v (s.low w)
  | some i => some (if w ∈ s.stack then s.lower v i else s)

variable (succ : V → List V)

def connect : Nat → V → State V → Option (State V)
  | 0, _, _ => none
  | n + 1, v, s => ((succ v).foldlM (follow (connect n) v) (s.enter v)).map (·.leave v)

def visit (n : Nat) (s : State V) (v : V) : Option (State V) :=
  if s.index v = none then connect succ n v s else some s

def components (n : Nat) (verts : List V) : Option (State V) :=
  verts.foldlM (visit succ n) .start

end Defs

section Invariant

variable {V : Type u} (succ : V → List V) (verts gray : List V)

abbrev Reach : V → V → Prop := Relation.ReflTransGen fun x y => y ∈ succ x

def Mutual (x y : V) : Prop := Reach succ x y ∧ Reach succ y x

namespace State

def Visited (s : State V) (x : V) : Prop := s.index x ≠ none

def num (s : State V) (x : V) : Nat := (s.index x).getD 0

end State

/-- The nodes in `gray` are those whose edges are being followed.  Each of them leads to all that
is above it on the stack, and each node of the stack leads to one of them that is not above it. -/
structure Inv (s : State V) : Prop where
  sorted : s.stack.Pairwise fun x y => s.num y < s.num x
  lt_next : ∀ x, s.Visited x → s.num x < s.next
  visited : ∀ x, s.Visited x ↔ x ∈ s.stack ∨ x ∈ s.comps.flatten
  apart : ∀ x ∈ s.stack, x ∉ s.comps.flatten
  nodup : s.comps.flatten.Nodup
  within : ∀ x, s.Visited x → x ∈ verts
  onStack : ∀ g ∈ gray, g ∈ s.stack
  closed : ∀ x, s.Visited x → x ∉ gray → ∀ y ∈ succ x, s.Visited y
  doneClosed : ∀ x ∈ s.comps.flatten, ∀ y ∈ succ x, y ∈ s.comps.flatten
  comp : ∀ c ∈ s.comps, ∀ x ∈ c, ∀ y, y ∈ c ↔ Mutual succ x y
  toGray : ∀ x ∈ s.stack, ∃ g ∈ gray, s.num g ≤ s.num x ∧ Reach succ x g
  fromGray : ∀ g ∈ gray, ∀ x ∈ s.stack, s.num g ≤ s.num x → Reach succ g x

structure Grown (s t : State V) : Prop where
  index : ∀ x, s.Visited x → t.index x = s.index x
  low : ∀ x, s.Visited x → t.low x = s.low x
  stack : ∃ new, t.stack = new ++ s.stack

def Bounded (s t : State V) (k : Nat) : Prop :=
  ∀ new, t.stack = new ++ s.stack → ∀ x ∈ new, ∀ y ∈ succ x, y ∈ s.stack → k ≤ t.num y

/-- What the search from `v` comes to.  Either the component of `v` has been found, or `v` leads
to the node on the old stack that has its number. -/
structure Connected (s t : State V) (v : V) : Prop where
  grown : Grown s t
  index : t.index v = some s.next
  low : t.stack = s.stack ∧ t.low v = s.next ∨
    ∃ y ∈ s.stack, t.num y = t.low v ∧ Reach succ v y
  bounded : Bounded succ s t (t.low v)

/-- What holds while the edges of `v` are followed, those to the nodes of `seen` being done and
`low` being the smallest index found. -/
structure Scanning (s t : State V) (v : V) (seen : List V) (low : Nat) : Prop where
  inv : Inv succ verts (v :: gray) t
  fresh : s.index v = none
  below : ∀ g ∈ gray, g ∈ s.stack
  grown : Grown s t
  index : t.index v = some s.next
  stack : ∃ new, t.stack = new ++ v :: s.stack ∧
    ∀ x ∈ new, ∀ y ∈ succ x, y ∈ s.stack → low ≤ t.num y
  low_le : low ≤ s.next
  least : ∃ y ∈ t.stack, t.num y = low ∧ Reach succ v y
  seen : ∀ y ∈ seen, t.Visited y ∧ (y ∈ s.stack → low ≤ t.num y)

end Invariant

section Facts

variable {V : Type u} {succ : V → List V} {verts gray seen : List V} {s t t' : State V}
  {v w x y : V} {low : Nat}

theorem State.num_eq {i : Nat} (h : s.index x = some i) : s.num x = i := by
  rw [State.num, h]
  rfl

theorem State.visited_of_eq {i : Nat} (h : s.index x = some i) : s.Visited x := by
  rw [State.Visited, h]
  exact Option.some_ne_none i

theorem Grown.refl (s : State V) : Grown s s := ⟨fun _ _ => rfl, fun _ _ => rfl, [], rfl⟩

theorem Grown.visited (h : Grown s t) (hx : s.Visited x) : t.Visited x := by
  rw [State.Visited, h.index x hx]
  exact hx

theorem Grown.num (h : Grown s t) (hx : s.Visited x) : t.num x = s.num x := by
  rw [State.num, State.num, h.index x hx]

theorem Grown.trans (h : Grown s t) (h' : Grown t t') : Grown s t' where
  index x hx := (h'.index x (h.visited hx)).trans (h.index x hx)
  low x hx := (h'.low x (h.visited hx)).trans (h.low x hx)
  stack := by
    obtain ⟨new, hnew⟩ := h.stack
    obtain ⟨new', hnew'⟩ := h'.stack
    exact ⟨new' ++ new, by rw [hnew', hnew, List.append_assoc]⟩

theorem Grown.mem_stack (h : Grown s t) (hx : x ∈ s.stack) : x ∈ t.stack := by
  obtain ⟨new, hnew⟩ := h.stack
  rw [hnew]
  exact List.mem_append_right new hx

theorem Inv.visited_of_stack (h : Inv succ verts gray s) (hx : x ∈ s.stack) : s.Visited x :=
  (h.visited x).mpr (.inl hx)

theorem Inv.not_mem_stack (h : Inv succ verts gray s) (hx : s.index x = none) : x ∉ s.stack :=
  fun hmem => h.visited_of_stack hmem hx

theorem Inv.stack_nodup (h : Inv succ verts gray s) : s.stack.Nodup :=
  h.sorted.imp fun hlt heq => absurd (heq ▸ hlt) (lt_irrefl _)

theorem Inv.reach_of_num_le (h : Inv succ verts gray s) (hx : x ∈ s.stack) (hy : y ∈ s.stack)
    (hle : s.num x ≤ s.num y) : Reach succ x y := by
  obtain ⟨g, hg, hgx, hreach⟩ := h.toGray x hx
  exact hreach.trans (h.fromGray g hg y hy (hgx.trans hle))

theorem Inv.mem_done_of_reach (h : Inv succ verts gray s) (hx : x ∈ s.comps.flatten)
    (hreach : Reach succ x y) : y ∈ s.comps.flatten := by
  induction hreach with
  | refl => exact hx
  | tail _ hy ih => exact h.doneClosed _ ih _ hy

theorem State.ne_of_visited (hv : s.index v = none) (hx : s.Visited x) : x ≠ v :=
  fun heq => hx (heq ▸ hv)

theorem Scanning.subset_stack (h : Scanning succ verts gray s t v seen low) (hx : x ∈ s.stack) :
    x ∈ t.stack := h.grown.mem_stack hx

theorem Scanning.back (h : Scanning succ verts gray s t v seen low) (hw : w ∈ succ v)
    (hstack : w ∈ t.stack) :
    Scanning succ verts gray s t v (w :: seen) (min low (t.num w)) where
  inv := h.inv
  fresh := h.fresh
  below := h.below
  grown := h.grown
  index := h.index
  stack := by
    obtain ⟨new, hnew, hbound⟩ := h.stack
    exact ⟨new, hnew, fun x hx y hy hmem => (min_le_left _ _).trans (hbound x hx y hy hmem)⟩
  low_le := (min_le_left _ _).trans h.low_le
  least := by
    obtain hmin | hmin := min_choice low (t.num w)
    · rw [hmin]
      exact h.least
    · rw [hmin]
      exact ⟨w, hstack, rfl, .single hw⟩
  seen := List.forall_mem_cons.mpr ⟨⟨h.inv.visited_of_stack hstack, fun _ => min_le_right _ _⟩,
    fun y hy => ⟨(h.seen y hy).1, fun hmem => (min_le_left _ _).trans ((h.seen y hy).2 hmem)⟩⟩

theorem Scanning.cross (h : Scanning succ verts gray s t v seen low) (hw : t.Visited w)
    (hstack : w ∉ t.stack) : Scanning succ verts gray s t v (w :: seen) low :=
  ⟨h.inv, h.fresh, h.below, h.grown, h.index, h.stack, h.low_le, h.least, List.forall_mem_cons.mpr
    ⟨⟨hw, fun hmem => absurd (h.subset_stack hmem) hstack⟩, h.seen⟩⟩

theorem Scanning.descend (h : Scanning succ verts gray s t v seen low) (hw : w ∈ succ v)
    (hfresh : t.index w = none) (hinv : Inv succ verts (v :: gray) t')
    (hconnected : Connected succ t t' w) :
    Scanning succ verts gray s t' v (w :: seen) (min low (t'.low w)) := by
  have hgrown := hconnected.grown
  have hnum : ∀ {y}, y ∈ s.stack → t'.num y = t.num y := fun hy =>
    hgrown.num (h.inv.visited_of_stack (h.subset_stack hy))
  refine ⟨hinv, h.fresh, h.below, h.grown.trans hgrown, ?_, ?_, (min_le_left _ _).trans h.low_le, ?_, ?_⟩
  · exact (hgrown.index v (State.visited_of_eq h.index)).trans h.index
  · obtain ⟨new, hnew, hbound⟩ := h.stack
    obtain ⟨new', hnew'⟩ := hgrown.stack
    refine ⟨new' ++ new, by rw [hnew', hnew, List.append_assoc], fun x hx y hy hmem => ?_⟩
    obtain hx | hx := List.mem_append.mp hx
    · exact (min_le_right _ _).trans
        (hconnected.bounded new' hnew' x hx y hy (h.subset_stack hmem))
    · rw [hnum hmem]
      exact (min_le_left _ _).trans (hbound x hx y hy hmem)
  · by_cases hle : low ≤ t'.low w
    · obtain ⟨y, hy, hlow, hreach⟩ := h.least
      rw [min_eq_left hle]
      exact ⟨y, hgrown.mem_stack hy, (hgrown.num (h.inv.visited_of_stack hy)).trans hlow, hreach⟩
    · rw [min_eq_right (not_le.mp hle).le]
      obtain ⟨_, hlow⟩ | ⟨y, hy, hlow, hreach⟩ := hconnected.low
      · have hlt := h.inv.lt_next v (State.visited_of_eq h.index)
        rw [State.num_eq h.index] at hlt
        have := h.low_le
        omega
      · exact ⟨y, hgrown.mem_stack hy, hlow, .head hw hreach⟩
  · refine List.forall_mem_cons.mpr ⟨⟨State.visited_of_eq hconnected.index, fun hmem =>
      absurd (h.subset_stack hmem) (h.inv.not_mem_stack hfresh)⟩, fun y hy => ?_⟩
    obtain ⟨hvisited, hbound⟩ := h.seen y hy
    refine ⟨hgrown.visited hvisited, fun hmem => ?_⟩
    rw [hnum hmem]
    exact (min_le_left _ _).trans (hbound hmem)

theorem inv_start : Inv succ verts [] (State.start : State V) where
  sorted := .nil
  lt_next _ h := absurd rfl h
  visited _ := iff_of_false (fun h => h rfl) fun h => h.elim List.not_mem_nil List.not_mem_nil
  apart _ _ := List.not_mem_nil
  nodup := .nil
  within _ h := absurd rfl h
  onStack _ h := absurd h List.not_mem_nil
  closed _ h := absurd rfl h
  doneClosed _ h := absurd h List.not_mem_nil
  comp _ h := absurd h List.not_mem_nil
  toGray _ h := absurd h List.not_mem_nil
  fromGray _ h := absurd h List.not_mem_nil

end Facts

section Steps

variable {V : Type u} [DecidableEq V] {succ : V → List V} {verts gray seen : List V}
  {s t t' : State V} {v w x y : V} {low : Nat}

theorem State.index_enter_self (s : State V) (v : V) : (s.enter v).index v = some s.next :=
  Function.update_self ..

theorem State.index_enter_of_ne (s : State V) (h : x ≠ v) : (s.enter v).index x = s.index x :=
  Function.update_of_ne h ..

theorem State.low_enter_self (s : State V) (v : V) : (s.enter v).low v = s.next :=
  Function.update_self ..

theorem State.low_enter_of_ne (s : State V) (h : x ≠ v) : (s.enter v).low x = s.low x :=
  Function.update_of_ne h ..

theorem grown_enter (hv : s.index v = none) : Grown s (s.enter v) where
  index _ hx := s.index_enter_of_ne (State.ne_of_visited hv hx)
  low _ hx := s.low_enter_of_ne (State.ne_of_visited hv hx)
  stack := ⟨[v], rfl⟩

theorem State.visited_enter (hv : s.index v = none) :
    (s.enter v).Visited x ↔ x = v ∨ s.Visited x := by
  by_cases hx : x = v
  · subst hx
    exact iff_of_true (State.visited_of_eq (s.index_enter_self x)) (.inl rfl)
  · rw [State.Visited, s.index_enter_of_ne hx]
    exact ⟨.inr, fun h => h.resolve_left hx⟩

theorem Inv.enter (h : Inv succ verts gray s) (hv : s.index v = none) (hmem : v ∈ verts)
    (hgray : ∀ g ∈ gray, Reach succ g v) : Inv succ verts (v :: gray) (s.enter v) := by
  have hgrown := grown_enter hv
  have hself : (s.enter v).num v = s.next := State.num_eq (s.index_enter_self v)
  have hnum : ∀ x, s.Visited x → (s.enter v).num x = s.num x := fun x hx => hgrown.num hx
  have hlt : ∀ x ∈ s.stack, (s.enter v).num x < (s.enter v).num v := fun x hx => by
    have hx := h.visited_of_stack hx
    rw [hself, hnum x hx]
    exact h.lt_next x hx
  refine ⟨?_, ?_, ?_, ?_, h.nodup, ?_, ?_, ?_, h.doneClosed, h.comp, ?_, ?_⟩
  · refine List.pairwise_cons.mpr ⟨hlt, h.sorted.imp_of_mem fun hx hy hxy => ?_⟩
    rwa [hnum _ (h.visited_of_stack hx), hnum _ (h.visited_of_stack hy)]
  · intro x hx
    obtain rfl | hx := (State.visited_enter hv).mp hx
    · rw [hself]
      exact Nat.lt_succ_self _
    · rw [hnum x hx]
      exact (h.lt_next x hx).trans (Nat.lt_succ_self _)
  · intro x
    rw [State.visited_enter hv, h.visited, ← or_assoc]
    exact or_congr_left List.mem_cons.symm
  · intro x hx hdone
    obtain rfl | hx := List.mem_cons.mp hx
    · exact (h.visited x).mpr (.inr hdone) hv
    · exact h.apart x hx hdone
  · intro x hx
    obtain rfl | hx := (State.visited_enter hv).mp hx
    · exact hmem
    · exact h.within x hx
  · exact fun g hg => List.cons_subset_cons v h.onStack hg
  · intro x hx hnot y hy
    obtain ⟨hne, hnot⟩ := not_or.mp (mt List.mem_cons.mpr hnot)
    exact (State.visited_enter hv).mpr (.inr
      (h.closed x (((State.visited_enter hv).mp hx).resolve_left hne) hnot y hy))
  · intro x hx
    obtain rfl | hx := List.mem_cons.mp hx
    · exact ⟨x, List.mem_cons_self, le_refl _, .refl⟩
    · obtain ⟨g, hg, hle, hreach⟩ := h.toGray x hx
      refine ⟨g, List.mem_cons_of_mem v hg, ?_, hreach⟩
      rwa [hnum g (h.visited_of_stack (h.onStack g hg)), hnum x (h.visited_of_stack hx)]
  · intro g hg x hx hle
    obtain rfl | hg' := List.mem_cons.mp hg
    · obtain rfl | hx := List.mem_cons.mp hx
      · exact .refl
      · exact absurd hle (hlt x hx).not_ge
    · obtain rfl | hx := List.mem_cons.mp hx
      · exact hgray g hg'
      · rw [hnum g (h.visited_of_stack (h.onStack g hg')), hnum x (h.visited_of_stack hx)] at hle
        exact h.fromGray g hg' x hx hle

theorem Inv.scanning (h : Inv succ verts gray s) (hv : s.index v = none) (hmem : v ∈ verts)
    (hgray : ∀ g ∈ gray, Reach succ g v) :
    Scanning succ verts gray s (s.enter v) v [] ((s.enter v).low v) := by
  rw [s.low_enter_self]
  exact {
    inv := h.enter hv hmem hgray
    fresh := hv
    below := h.onStack
    grown := grown_enter hv
    index := s.index_enter_self v
    stack := ⟨[], rfl, fun x hx => absurd hx List.not_mem_nil⟩
    low_le := le_refl _
    least := ⟨v, List.mem_cons_self, State.num_eq (s.index_enter_self v), .refl⟩
    seen := fun y hy => absurd hy List.not_mem_nil }

theorem State.low_lower (s : State V) (v : V) (k : Nat) : (s.lower v k).low v = min (s.low v) k :=
  Function.update_self ..

theorem State.low_lower_of_ne (s : State V) (h : x ≠ v) (k : Nat) : (s.lower v k).low x = s.low x :=
  Function.update_of_ne h ..

theorem Scanning.lower (h : Scanning succ verts gray s t v seen low) (k : Nat) :
    Scanning succ verts gray s (t.lower v k) v seen low where
  inv := ⟨h.inv.sorted, h.inv.lt_next, h.inv.visited, h.inv.apart, h.inv.nodup, h.inv.within,
    h.inv.onStack, h.inv.closed, h.inv.doneClosed, h.inv.comp, h.inv.toGray, h.inv.fromGray⟩
  fresh := h.fresh
  below := h.below
  grown := ⟨h.grown.index, fun x hx => (t.low_lower_of_ne (State.ne_of_visited h.fresh hx)
    k).trans (h.grown.low x hx), h.grown.stack⟩
  index := h.index
  stack := h.stack
  low_le := h.low_le
  least := h.least
  seen := h.seen

theorem popTo_suffix (v : V) (xs : List V) : (popTo v xs).2 <:+ xs := by
  induction xs with
  | nil => exact List.suffix_rfl
  | cons x xs ih =>
    rw [popTo]
    split
    next => exact List.suffix_cons x xs
    next => exact ih.trans (List.suffix_cons x xs)

theorem popTo_append {new rest : List V} (h : v ∉ new) :
    popTo v (new ++ v :: rest) = (new ++ [v], rest) := by
  induction new with
  | nil => exact if_pos rfl
  | cons x new ih =>
    obtain ⟨hne, hnew⟩ := not_or.mp (mt List.mem_cons.mpr h)
    rw [List.cons_append, popTo, if_neg (Ne.symm hne), ih hnew]
    rfl

end Steps

section Leave

variable {V : Type u} {succ : V → List V} {verts gray seen : List V} {s t : State V} {v x y : V}
  {low : Nat}

theorem Scanning.visited_succ (h : Scanning succ verts gray s t v seen low)
    (hseen : ∀ w ∈ succ v, w ∈ seen) (hx : t.Visited x) (hnot : x ∉ gray) :
    ∀ y ∈ succ x, t.Visited y := by
  intro y hy
  by_cases hxv : x = v
  · subst hxv
    exact (h.seen y (hseen y hy)).1
  · exact h.inv.closed x hx (fun hmem => (List.mem_cons.mp hmem).elim hxv hnot) y hy

theorem Scanning.num_lt (h : Scanning succ verts gray s t v seen low) (hx : x ∈ s.stack) :
    t.num x < t.num v := by
  obtain ⟨new, hnew, _⟩ := h.stack
  have hsorted := h.inv.sorted
  rw [hnew] at hsorted
  exact (List.pairwise_cons.mp (List.pairwise_append.mp hsorted).2.1).1 x hx

theorem Scanning.mem_stack (h : Scanning succ verts gray s t v seen low) : v ∈ t.stack := by
  obtain ⟨new, hnew, _⟩ := h.stack
  rw [hnew]
  exact List.mem_append_right new List.mem_cons_self

theorem Scanning.bounded (h : Scanning succ verts gray s t v seen low)
    (hseen : ∀ w ∈ succ v, w ∈ seen) : Bounded succ s t low := by
  intro new hnew x hx y hy hmem
  obtain ⟨new', hnew', hbound⟩ := h.stack
  have heq : new = new' ++ [v] := by
    refine (List.append_left_inj s.stack).mp ?_
    rw [← hnew, hnew', List.append_assoc]
    rfl
  rw [heq] at hx
  obtain hx | hx := List.mem_append.mp hx
  · exact hbound x hx y hy hmem
  · obtain rfl := List.mem_singleton.mp hx
    exact (h.seen y (hseen y hy)).2 hmem

theorem Scanning.keep (h : Scanning succ verts gray s t v seen (t.low v))
    (hseen : ∀ w ∈ succ v, w ∈ seen) (hlt : t.low v ≠ s.next) :
    Inv succ verts gray t ∧ Connected succ s t v := by
  have hnum : t.num v = s.next := State.num_eq h.index
  obtain ⟨y, hy, hlow, hreach⟩ := h.least
  have hyv : t.num y < t.num v := by
    have := h.low_le
    omega
  have hys : y ∈ s.stack := by
    obtain ⟨new, hnew, _⟩ := h.stack
    have hsorted := h.inv.sorted
    rw [hnew] at hsorted hy
    obtain hy | hy := List.mem_append.mp hy
    · have := (List.pairwise_append.mp hsorted).2.2 y hy v List.mem_cons_self
      omega
    · obtain rfl | hy := List.mem_cons.mp hy
      · exact absurd hyv (lt_irrefl _)
      · exact hy
  refine ⟨⟨h.inv.sorted, h.inv.lt_next, h.inv.visited, h.inv.apart, h.inv.nodup, h.inv.within,
    fun g hg => h.inv.onStack g (List.mem_cons_of_mem v hg),
    fun x hx hnot => h.visited_succ hseen hx hnot, h.inv.doneClosed, h.inv.comp, fun x hx => ?_,
    fun g hg => h.inv.fromGray g (List.mem_cons_of_mem v hg)⟩,
    ⟨h.grown, h.index, .inr ⟨y, hys, hlow, hreach⟩, h.bounded hseen⟩⟩
  obtain ⟨g, hg, hle, hgreach⟩ := h.inv.toGray x hx
  obtain rfl | hg := List.mem_cons.mp hg
  · obtain ⟨g', hg', hle', hgreach'⟩ := h.inv.toGray y (h.subset_stack hys)
    obtain rfl | hg' := List.mem_cons.mp hg'
    · exact absurd hle' hyv.not_ge
    · exact ⟨g', hg', by omega, hgreach.trans (hreach.trans hgreach')⟩
  · exact ⟨g, hg, hle, hgreach⟩

section Component

variable {new : List V}

theorem Scanning.num_le (h : Scanning succ verts gray s t v seen low)
    (hnew : t.stack = (new ++ [v]) ++ s.stack) (hx : x ∈ new ++ [v]) : t.num v ≤ t.num x := by
  have hsorted := (List.pairwise_append.mp (hnew ▸ h.inv.sorted)).1
  obtain hx | hx := List.mem_append.mp hx
  · exact ((List.pairwise_append.mp hsorted).2.2 x hx v (List.mem_singleton_self v)).le
  · rw [List.mem_singleton.mp hx]

theorem Scanning.component_closed (h : Scanning succ verts gray s t v seen s.next)
    (hseen : ∀ w ∈ succ v, w ∈ seen) (hnew : t.stack = (new ++ [v]) ++ s.stack)
    (hx : x ∈ new ++ [v]) (hy : y ∈ succ x) : y ∈ new ++ [v] ∨ y ∈ t.comps.flatten := by
  have hnum : t.num v = s.next := State.num_eq h.index
  have hstack : x ∈ t.stack := hnew ▸ List.mem_append_left _ hx
  have hgray : x ∉ gray :=
    fun hg => (h.num_le hnew hx).not_gt (h.num_lt (h.below x hg))
  have hvisited := h.visited_succ hseen (h.inv.visited_of_stack hstack) hgray y hy
  obtain hmem | hdone := (h.inv.visited y).mp hvisited
  · obtain hmem | hmem := List.mem_append.mp (hnew ▸ hmem)
    · exact .inl hmem
    · have hle := h.bounded hseen _ hnew x hx y hy hmem
      exact absurd (hnum ▸ h.num_lt hmem) hle.not_gt
  · exact .inr hdone

theorem Scanning.component (h : Scanning succ verts gray s t v seen s.next)
    (hseen : ∀ w ∈ succ v, w ∈ seen) (hnew : t.stack = (new ++ [v]) ++ s.stack)
    (hx : x ∈ new ++ [v]) : y ∈ new ++ [v] ↔ Mutual succ x y := by
  have hmem : ∀ {z}, z ∈ new ++ [v] → z ∈ t.stack := fun hz =>
    hnew ▸ List.mem_append_left _ hz
  have hfrom : ∀ {z}, z ∈ new ++ [v] → Reach succ v z := fun hz =>
    h.inv.reach_of_num_le h.mem_stack (hmem hz) (h.num_le hnew hz)
  have hto : ∀ {z}, z ∈ new ++ [v] → Reach succ z v := fun {z} hz => by
    obtain ⟨g, hg, _, hreach⟩ := h.inv.toGray z (hmem hz)
    obtain rfl | hg' := List.mem_cons.mp hg
    · exact hreach
    · exact hreach.trans (h.inv.fromGray g hg v h.mem_stack (h.num_lt (h.below g hg')).le)
  have hclosed : ∀ {z}, Reach succ x z → z ∈ new ++ [v] ∨ z ∈ t.comps.flatten := by
    intro z hreach
    induction hreach with
    | refl => exact .inl hx
    | tail _ hz ih =>
      obtain ha | ha := ih
      · exact h.component_closed hseen hnew ha hz
      · exact .inr (h.inv.doneClosed _ ha _ hz)
  constructor
  · exact fun hy => ⟨(hto hx).trans (hfrom hy), (hto hy).trans (hfrom hx)⟩
  · rintro ⟨hxy, hyx⟩
    refine (hclosed hxy).resolve_right fun hdone => ?_
    exact h.inv.apart x (hmem hx) (h.inv.mem_done_of_reach hdone hyx)

theorem Scanning.pop (h : Scanning succ verts gray s t v seen (t.low v))
    (hseen : ∀ w ∈ succ v, w ∈ seen) (hlow : t.low v = s.next)
    (hnew : t.stack = (new ++ [v]) ++ s.stack) :
    Inv succ verts gray { t with stack := s.stack, comps := t.comps ++ [new ++ [v]] } ∧
      Connected succ s { t with stack := s.stack, comps := t.comps ++ [new ++ [v]] } v := by
  have hflatten : ∀ x, x ∈ (t.comps ++ [new ++ [v]]).flatten ↔
      x ∈ t.comps.flatten ∨ x ∈ new ++ [v] := fun x => by
    rw [List.flatten_concat, List.mem_append]
  have hnodup := hnew ▸ h.inv.stack_nodup
  have hmem : ∀ {x}, x ∈ new ++ [v] → x ∈ t.stack := fun hx => hnew ▸ List.mem_append_left _ hx
  rw [hlow] at h
  refine ⟨⟨?_, h.inv.lt_next, fun x => ?_, fun x hx hdone => ?_, ?_, h.inv.within, h.below,
    fun x hx hnot => h.visited_succ hseen hx hnot, fun x hx y hy => ?_, fun c hc x hx y => ?_,
    fun x hx => ?_, fun g hg x hx => ?_⟩, ⟨⟨h.grown.index, h.grown.low, [], rfl⟩, h.index,
      .inl ⟨rfl, hlow⟩, fun new' hnew' x hx => ?_⟩⟩
  · exact (List.pairwise_append.mp (hnew ▸ h.inv.sorted)).2.1
  · change t.Visited x ↔ x ∈ s.stack ∨ x ∈ (t.comps ++ [new ++ [v]]).flatten
    rw [hflatten, h.inv.visited, hnew, List.mem_append]
    tauto
  · obtain hdone | hx' := (hflatten x).mp hdone
    · exact h.inv.apart x (h.subset_stack hx) hdone
    · exact (List.nodup_append.mp hnodup).2.2 x hx' x hx rfl
  · change (t.comps ++ [new ++ [v]]).flatten.Nodup
    rw [List.flatten_concat]
    refine List.nodup_append.mpr ⟨h.inv.nodup, (List.nodup_append.mp hnodup).1, ?_⟩
    rintro x hx y hy rfl
    exact h.inv.apart x (hmem hy) hx
  · refine (hflatten y).mpr ?_
    obtain hx | hx := (hflatten x).mp hx
    · exact .inl (h.inv.doneClosed x hx y hy)
    · exact (h.component_closed hseen hnew hx hy).symm
  · obtain hc | hc := List.mem_append.mp hc
    · exact h.inv.comp c hc x hx y
    · rw [List.mem_singleton.mp hc] at hx ⊢
      exact h.component hseen hnew hx
  · obtain ⟨g, hg, hle, hreach⟩ := h.inv.toGray x (h.subset_stack hx)
    obtain rfl | hg := List.mem_cons.mp hg
    · exact absurd hle (h.num_lt hx).not_ge
    · exact ⟨g, hg, hle, hreach⟩
  · exact h.inv.fromGray g (List.mem_cons_of_mem v hg) x (h.subset_stack hx)
  · obtain rfl : new' = [] := (List.append_left_inj s.stack).mp hnew'.symm
    exact absurd hx List.not_mem_nil

end Component

end Leave

section Runs

variable {V : Type u} [DecidableEq V] {succ : V → List V} {verts gray seen : List V}
  {s t : State V} {v w x : V} {n : Nat}

def State.white (verts : List V) (s : State V) : Nat :=
  (verts.toFinset.filter fun x => s.index x = none).card

theorem Grown.white_lt (h : Grown s t) (hv : s.index v = none) (hmem : v ∈ verts)
    (ht : t.Visited v) : t.white verts < s.white verts := by
  refine Finset.card_lt_card (Finset.ssubset_iff_of_subset ?_ |>.mpr ⟨v, ?_, ?_⟩)
  · intro x hx
    obtain ⟨hx, hnone⟩ := Finset.mem_filter.mp hx
    refine Finset.mem_filter.mpr ⟨hx, ?_⟩
    by_contra hvisited
    exact h.visited hvisited hnone
  · exact Finset.mem_filter.mpr ⟨List.mem_toFinset.mpr hmem, hv⟩
  · exact fun hx => ht (Finset.mem_filter.mp hx).2

def Comes (succ : V → List V) (verts gray : List V) (s : State V) (v : V)
    (result : Option (State V)) : Prop :=
  ∃ t, result = some t ∧ Inv succ verts gray t ∧ Connected succ s t v

theorem Scanning.follow (h : Scanning succ verts gray s t v seen (t.low v)) (hw : w ∈ succ v)
    {search : V → State V → Option (State V)}
    (hsearch : t.index w = none → Comes succ verts (v :: gray) t w (search w t)) :
    ∃ t', follow search v t w = some t' ∧
      Scanning succ verts gray s t' v (w :: seen) (t'.low v) := by
  unfold Tarjan.follow
  cases hindex : t.index w with
  | none =>
    obtain ⟨t', hresult, hinv, hconnected⟩ := hsearch hindex
    refine ⟨_, congrArg (Option.map _) hresult, ?_⟩
    rw [State.low_lower, hconnected.grown.low v (State.visited_of_eq h.index)]
    exact (h.descend hw hindex hinv hconnected).lower _
  | some i =>
    refine ⟨_, rfl, ?_⟩
    split
    next hstack =>
      rw [State.low_lower, ← State.num_eq hindex]
      exact (h.back hw hstack).lower _
    next hstack => exact h.cross (State.visited_of_eq hindex) hstack

theorem Scanning.foldlM {search : V → State V → Option (State V)}
    (hsearch : ∀ t seen w, Scanning succ verts gray s t v seen (t.low v) → w ∈ succ v →
      t.index w = none → Comes succ verts (v :: gray) t w (search w t))
    (ws : List V) (hws : ∀ w ∈ ws, w ∈ succ v)
    (h : Scanning succ verts gray s t v seen (t.low v)) :
    ∃ t', ws.foldlM (Tarjan.follow search v) t = some t' ∧
      Scanning succ verts gray s t' v (ws.reverse ++ seen) (t'.low v) := by
  induction ws generalizing t seen with
  | nil => exact ⟨t, rfl, h⟩
  | cons w ws ih =>
    obtain ⟨hw, hws⟩ := List.forall_mem_cons.mp hws
    obtain ⟨t', hfollow, h'⟩ := h.follow hw (hsearch t seen w h hw)
    obtain ⟨t'', hrest, h''⟩ := ih hws h'
    refine ⟨t'', ?_, ?_⟩
    · rw [List.foldlM_cons, hfollow]
      exact hrest
    · rw [List.reverse_cons, List.append_assoc]
      exact h''

theorem Scanning.leave (h : Scanning succ verts gray s t v seen (t.low v))
    (hseen : ∀ w ∈ succ v, w ∈ seen) :
    Inv succ verts gray (t.leave v) ∧ Connected succ s (t.leave v) v := by
  rw [State.leave, h.index]
  split
  next hlow =>
    obtain ⟨new, hnew, _⟩ := h.stack
    have hnodup := hnew ▸ h.inv.stack_nodup
    have hv : v ∉ new := fun hmem =>
      (List.nodup_append.mp hnodup).2.2 v hmem v List.mem_cons_self rfl
    rw [hnew, popTo_append hv]
    exact h.pop hseen (Option.some.inj hlow).symm (hnew.trans (List.append_cons new v s.stack))
  next hlow => exact h.keep hseen fun heq => hlow (congrArg some heq.symm)

theorem connect_comes (hverts : ∀ x ∈ verts, ∀ y ∈ succ x, y ∈ verts)
    (hinv : Inv succ verts gray s) (hv : s.index v = none) (hmem : v ∈ verts)
    (hgray : ∀ g ∈ gray, Reach succ g v) (hn : s.white verts ≤ n) :
    Comes succ verts gray s v (connect succ n v s) := by
  induction n generalizing gray s v with
  | zero =>
    have hlt := (grown_enter hv).white_lt hv hmem (State.visited_of_eq (s.index_enter_self v))
    exact absurd (hlt.trans_le hn) (Nat.not_lt_zero _)
  | succ n ih =>
    have hsearch : ∀ t seen w, Scanning succ verts gray s t v seen (t.low v) → w ∈ succ v →
        t.index w = none → Comes succ verts (v :: gray) t w (connect succ n w t) := by
      intro t seen w h hw hfresh
      have hlt := h.grown.white_lt hv hmem (State.visited_of_eq h.index)
      refine ih h.inv hfresh (hverts v hmem w hw) ?_ (Nat.le_of_lt_succ (hlt.trans_le hn))
      exact List.forall_mem_cons.mpr ⟨.single hw, fun g hg => (hgray g hg).tail hw⟩
    obtain ⟨t, hfold, h⟩ := (hinv.scanning hv hmem hgray).foldlM hsearch (succ v) fun _ hw => hw
    refine ⟨t.leave v, ?_, h.leave fun w hw => ?_⟩
    · rw [connect, hfold]
      rfl
    · exact List.mem_append_left _ (List.mem_reverse.mpr hw)

theorem visit_spec (hverts : ∀ x ∈ verts, ∀ y ∈ succ x, y ∈ verts) (hinv : Inv succ verts [] s)
    (hmem : v ∈ verts) (hn : verts.length ≤ n) :
    ∃ t, visit succ n s v = some t ∧ Inv succ verts [] t ∧ Grown s t ∧ t.Visited v := by
  rw [visit]
  split
  next hv =>
    have hwhite : s.white verts ≤ n :=
      ((Finset.card_filter_le _ _).trans (List.toFinset_card_le verts)).trans hn
    obtain ⟨t, hresult, ht, hconnected⟩ := connect_comes hverts hinv hv hmem
      (fun _ hg => absurd hg List.not_mem_nil) hwhite
    exact ⟨t, hresult, ht, hconnected.grown, State.visited_of_eq hconnected.index⟩
  next hv => exact ⟨s, rfl, hinv, .refl s, hv⟩

theorem components_spec (hverts : ∀ x ∈ verts, ∀ y ∈ succ x, y ∈ verts) (hn : verts.length ≤ n) :
    ∃ t, components succ n verts = some t ∧ t.comps.flatten.Nodup ∧
      (∀ x, x ∈ t.comps.flatten ↔ x ∈ verts) ∧
      ∀ c ∈ t.comps, ∀ x ∈ c, ∀ y, y ∈ c ↔ Mutual succ x y := by
  have hloop : ∀ (vs : List V), (∀ v ∈ vs, v ∈ verts) → ∀ s, Inv succ verts [] s →
      ∃ t, vs.foldlM (visit succ n) s = some t ∧ Inv succ verts [] t ∧ Grown s t ∧
        ∀ v ∈ vs, t.Visited v := by
    intro vs hvs
    induction vs with
    | nil => exact fun s hs => ⟨s, rfl, hs, .refl s, fun _ h => absurd h List.not_mem_nil⟩
    | cons v vs ih =>
      intro s hs
      obtain ⟨hv, hvs⟩ := List.forall_mem_cons.mp hvs
      obtain ⟨t, hvisit, ht, hgrown, hvisited⟩ := visit_spec hverts hs hv hn
      obtain ⟨t', hrest, ht', hgrown', hall⟩ := ih hvs t ht
      refine ⟨t', ?_, ht', hgrown.trans hgrown', ?_⟩
      · rw [List.foldlM_cons, hvisit]
        exact hrest
      · exact List.forall_mem_cons.mpr ⟨hgrown'.visited hvisited, hall⟩
  obtain ⟨t, hresult, ht, _, hall⟩ := hloop verts (fun _ h => h) .start inv_start
  refine ⟨t, hresult, ht.nodup, fun x => ⟨fun hx => ?_, fun hx => ?_⟩, ht.comp⟩
  · exact ht.within x ((ht.visited x).mpr (.inr hx))
  · refine ((ht.visited x).mp (hall x hx)).resolve_left fun hstack => ?_
    obtain ⟨g, hg, _⟩ := ht.toGray x hstack
    exact List.not_mem_nil hg

theorem connect_succ (h : connect succ n v s = some t) : connect succ (n + 1) v s = some t := by
  induction n generalizing v s t with
  | zero => cases h
  | succ n ih =>
    obtain ⟨t', hfold, rfl⟩ := Option.map_eq_some_iff.mp h
    refine Option.map_eq_some_iff.mpr ⟨t', Fuel.foldlM_mono (fun s w t hfollow => ?_) _ hfold, rfl⟩
    unfold Tarjan.follow at hfollow ⊢
    cases hindex : s.index w with
    | none =>
      simp only [hindex] at hfollow
      obtain ⟨t'', hconnect, rfl⟩ := Option.map_eq_some_iff.mp hfollow
      exact Option.map_eq_some_iff.mpr ⟨t'', ih hconnect, rfl⟩
    | some i =>
      simp only [hindex] at hfollow
      exact hfollow

theorem components_succ (h : components succ n verts = some t) :
    components succ (n + 1) verts = some t := by
  refine Fuel.foldlM_mono (fun s v t hvisit => ?_) _ h
  rw [visit] at hvisit ⊢
  split at hvisit
  next hv =>
    rw [if_pos hv]
    exact connect_succ hvisit
  next hv =>
    rw [if_neg hv]
    exact hvisit

end Runs

end Tarjan
