import Mathlib.Logic.Function.Basic
import Mathlib.Order.Lattice.Nat
import SqliteMultimodal.Graph.Components.Defs
import SqliteMultimodal.Lib.Tarjan

namespace SqliteMultimodal.Graph.Components

section Search

variable {aNodeIds : List Int} {iNodeId : Int}

theorem readAt_natCast {β : Type} (xs : List β) (k : Nat) : readAt xs k = xs[k]? :=
  if_pos (Int.natCast_nonneg k)

theorem lt_of_getElem (hsorted : aNodeIds.Pairwise (· < ·)) {j k : Nat} {x y : Int}
    (hx : aNodeIds[j]? = some x) (hy : aNodeIds[k]? = some y) (hlt : x < y) : j < k := by
  obtain ⟨hj, rfl⟩ := List.getElem?_eq_some_iff.mp hx
  obtain ⟨hk, rfl⟩ := List.getElem?_eq_some_iff.mp hy
  by_contra hge
  obtain hgt | heq := Nat.lt_or_eq_of_le (not_lt.mp hge)
  · exact absurd hlt (List.pairwise_iff_getElem.mp hsorted k j hk hj hgt).le.not_gt
  · subst heq
    exact lt_irrefl _ hlt

theorem searchIndex_spec (hsorted : aNodeIds.Pairwise (· < ·)) {turns : Nat} {left right : Int}
    (hturns : (right + 1 - left).toNat < turns) (hleft : 0 ≤ left)
    (hright : right < aNodeIds.length)
    (hbetween : ∀ k : Nat, aNodeIds[k]? = some iNodeId → left ≤ k ∧ k ≤ right) :
    (∃ k : Nat, searchIndex aNodeIds iNodeId turns left right = some k ∧
        aNodeIds[k]? = some iNodeId) ∨
      searchIndex aNodeIds iNodeId turns left right = some (-1) ∧ iNodeId ∉ aNodeIds := by
  induction turns generalizing left right with
  | zero => exact absurd hturns (Nat.not_lt_zero _)
  | succ turns ih =>
    rw [searchIndex]
    split
    next hle =>
      obtain ⟨mid, hmid⟩ := Int.eq_ofNat_of_zero_le (show 0 ≤ (left + right) / 2 by omega)
      have hlt : mid < aNodeIds.length := by omega
      have hget : aNodeIds[mid]? = some aNodeIds[mid] := List.getElem?_eq_getElem hlt
      simp only [hmid, readAt_natCast, hget, Option.bind_eq_bind, Option.bind_some]
      split
      next heq => exact .inl ⟨mid, rfl, heq ▸ hget⟩
      next hne =>
        split
        next hless =>
          apply ih (by omega) (by omega) hright
          intro k hk
          have := lt_of_getElem hsorted hget hk hless
          exact ⟨by omega, (hbetween k hk).2⟩
        next hless =>
          apply ih (by omega) hleft (by omega)
          intro k hk
          have := lt_of_getElem hsorted hk hget (lt_of_le_of_ne (not_lt.mp hless) (Ne.symm hne))
          exact ⟨(hbetween k hk).1, by omega⟩
    next hgt =>
      refine .inr ⟨rfl, fun hmem => ?_⟩
      obtain ⟨k, hk⟩ := List.getElem?_of_mem hmem
      have := hbetween k hk
      omega

theorem getNodeIndex_spec (hsorted : aNodeIds.Pairwise (· < ·)) (iNodeId : Int) :
    getNodeIndex aNodeIds iNodeId = some ((aNodeIds.idxOf? iNodeId).elim (-1) (Nat.cast ·)) := by
  have hspec : (∃ k : Nat, getNodeIndex aNodeIds iNodeId = some k ∧ aNodeIds[k]? = some iNodeId) ∨
      getNodeIndex aNodeIds iNodeId = some (-1) ∧ iNodeId ∉ aNodeIds := by
    refine searchIndex_spec hsorted (by omega) le_rfl (by omega) fun k hk => ?_
    have := (List.getElem?_eq_some_iff.mp hk).1
    omega
  obtain ⟨k, hsearch, hk⟩ | ⟨hsearch, hmem⟩ := hspec
  · have hidx : aNodeIds.idxOf? iNodeId = some k := by
      obtain ⟨hlt, heq⟩ := List.getElem?_eq_some_iff.mp hk
      refine List.idxOf?_eq_some_iff.mpr ⟨hlt, heq, fun j hj hjk => ?_⟩
      have := List.pairwise_iff_getElem.mp hsorted j k (hj.trans hlt) hlt hj
      rw [hjk, heq] at this
      exact lt_irrefl _ this
    rw [hsearch, hidx]
    rfl
  · rw [hsearch, List.idxOf?_eq_none_iff.mpr hmem]
    rfl

end Search

section Arrays

variable {β : Type} {nNodes k : Nat}

/-- The array that has `f i` at `i`. -/
def arrayOf (nNodes : Nat) (f : Nat → β) : List β := (List.range nNodes).map f

theorem readAt_arrayOf (f : Nat → β) (hk : k < nNodes) :
    readAt (arrayOf nNodes f) k = some (f k) := by
  rw [readAt_natCast, arrayOf, List.getElem?_map, List.getElem?_range hk]
  rfl

theorem writeAt_arrayOf (f : Nat → β) (hk : k < nNodes) (x : β) :
    writeAt (arrayOf nNodes f) k x = some (arrayOf nNodes (Function.update f k x)) := by
  have hlen : (arrayOf nNodes f).length = nNodes := by simp [arrayOf]
  rw [writeAt, hlen, if_pos ⟨Int.natCast_nonneg k, Int.ofNat_lt.mpr hk⟩, Int.toNat_natCast]
  congr 1
  apply List.ext_getElem
  · simp [arrayOf]
  · intro i hi _
    rw [List.getElem_set]
    by_cases hik : k = i
    · subst hik
      simp [arrayOf]
    · simp [arrayOf, hik, Function.update_of_ne (Ne.symm hik)]

end Arrays

end SqliteMultimodal.Graph.Components

namespace SqliteMultimodal.Graph.Components

section Stored

def idAt (aNodeIds : List Int) (k : Nat) : Int := aNodeIds.getD k 0

def places (tables : Tables) (aNodeIds : List Int) (k : Nat) : List Nat :=
  (tables.targets (idAt aNodeIds k)).filterMap (aNodeIds.idxOf? ·)

def componentText (ids : List Int) : Text := '[' :: (Text.join ',' (ids.map Text.ofInt) ++ [']'])

def indices (t : Tarjan.State Nat) (k : Nat) : Int := (t.index k).elim (-1) (Nat.cast ·)

def lows (t : Tarjan.State Nat) (k : Nat) : Int := if t.index k = none then -1 else t.low k

def stored (aNodeIds : List Int) (t : Tarjan.State Nat) : TarjanState where
  aIndex := arrayOf aNodeIds.length (indices t)
  aLowLink := arrayOf aNodeIds.length (lows t)
  aOnStack := arrayOf aNodeIds.length fun k => decide (k ∈ t.stack)
  pStack := t.stack.map (Nat.cast ·)
  nIndex := t.next
  azSCC := t.comps.map fun c => componentText (c.map (idAt aNodeIds))

structure Sound (nNodes : Nat) (t : Tarjan.State Nat) : Prop where
  nodup : t.stack.Nodup
  visited : ∀ x ∈ t.stack, t.Visited x
  lt : ∀ x ∈ t.stack, x < nNodes

structure Later (nNodes : Nat) (s t : Tarjan.State Nat) : Prop where
  sound : Sound nNodes t
  visited : ∀ x, s.Visited x → t.Visited x

structure Tracks (aNodeIds : List Int) (P : Tarjan.State Nat → Prop)
    (code : Option TarjanState) (run : Option (Tarjan.State Nat)) : Prop where
  eq : code = run.map (stored aNodeIds)
  post : ∀ t, run = some t → P t

end Stored

section Steps

variable {aNodeIds : List Int} {s t : Tarjan.State Nat} {v w : Nat}

theorem indices_of_visited {i : Nat} (h : t.index v = some i) : indices t v = i := by
  rw [indices, h]
  rfl

theorem indices_eq_neg_one : indices t v = -1 ↔ t.index v = none := by
  rw [indices]
  cases t.index v with
  | none => exact iff_of_true rfl rfl
  | some i => exact iff_of_false (by simp) (Option.some_ne_none i)

theorem lows_of_visited (h : t.Visited v) : lows t v = t.low v := if_neg h

theorem idAt_eq (hv : v < aNodeIds.length) : aNodeIds[v]? = some (idAt aNodeIds v) := by
  rw [idAt, List.getD_eq_getElem?_getD, List.getElem?_eq_getElem hv]
  rfl

theorem sound_start (nNodes : Nat) : Sound nNodes .start :=
  ⟨.nil, fun _ h => absurd h List.not_mem_nil, fun _ h => absurd h List.not_mem_nil⟩

theorem replicate_eq_arrayOf {β : Type} (nNodes : Nat) (x : β) :
    List.replicate nNodes x = arrayOf nNodes fun _ => x := by
  rw [arrayOf, List.map_const', List.length_range]

theorem stored_start (aNodeIds : List Int) :
    firstState aNodeIds.length = stored aNodeIds .start := by
  simp only [firstState, replicate_eq_arrayOf]
  rfl

theorem indices_enter (t : Tarjan.State Nat) (v : Nat) :
    indices (t.enter v) = Function.update (indices t) v t.next := by
  funext k
  by_cases hk : k = v
  · subst hk
    rw [Function.update_self, indices_of_visited (t.index_enter_self k)]
  · rw [Function.update_of_ne hk, indices, indices, t.index_enter_of_ne hk]

theorem lows_enter (t : Tarjan.State Nat) (v : Nat) :
    lows (t.enter v) = Function.update (lows t) v t.next := by
  funext k
  by_cases hk : k = v
  · subst hk
    rw [Function.update_self,
      lows_of_visited (Tarjan.State.visited_of_eq (t.index_enter_self k)), t.low_enter_self]
  · rw [Function.update_of_ne hk, lows, lows, t.index_enter_of_ne hk, t.low_enter_of_ne hk]

theorem lows_lower (hvisited : t.Visited v) (k : Nat) :
    lows (t.lower v k) = Function.update (lows t) v (min (t.low v) k : Nat) := by
  funext x
  by_cases hx : x = v
  · subst hx
    rw [Function.update_self, ← t.low_lower]
    exact lows_of_visited hvisited
  · rw [Function.update_of_ne hx, lows, lows, t.low_lower_of_ne hx]
    rfl

theorem enter_stored (hv : v < aNodeIds.length) :
    enter (stored aNodeIds t) v = some (stored aNodeIds (t.enter v)) := by
  have hstack : Function.update (fun k => decide (k ∈ t.stack)) v true =
      fun k => decide (k ∈ v :: t.stack) := by
    funext k
    by_cases hk : k = v
    · subst hk
      rw [Function.update_self]
      exact (decide_eq_true List.mem_cons_self).symm
    · rw [Function.update_of_ne hk]
      exact decide_eq_decide.mpr (List.mem_cons.trans (or_iff_right hk)).symm
  simp only [enter, stored, writeAt_arrayOf _ hv, hstack, indices_enter, lows_enter]
  rfl

theorem Sound.enter (h : Sound aNodeIds.length t) (hv : v < aNodeIds.length)
    (hfresh : t.index v = none) : Sound aNodeIds.length (t.enter v) where
  nodup := List.nodup_cons.mpr ⟨fun hmem => h.visited v hmem hfresh, h.nodup⟩
  visited := List.forall_mem_cons.mpr ⟨(Tarjan.State.visited_enter hfresh).mpr (.inl rfl),
    fun x hx => (Tarjan.State.visited_enter hfresh).mpr (.inr (h.visited x hx))⟩
  lt := List.forall_mem_cons.mpr ⟨hv, h.lt⟩

theorem lowerTo_stored (hv : v < aNodeIds.length) (hvisited : t.Visited v) (k : Nat) :
    lowerTo (stored aNodeIds t) v k = some (stored aNodeIds (t.lower v k)) := by
  have hread : readAt (stored aNodeIds t).aLowLink v = some (t.low v : Int) := by
    rw [stored, readAt_arrayOf _ hv, lows_of_visited hvisited]
  rw [lowerTo, hread, Option.bind_eq_bind, Option.bind_some]
  split
  next hlt =>
    have hmin : min (t.low v) k = k := min_eq_right (Int.ofNat_lt.mp hlt).le
    simp only [stored, writeAt_arrayOf _ hv, lows_lower hvisited, hmin]
    rfl
  next hge =>
    have hsame : lows (t.lower v k) = lows t := by
      rw [lows_lower hvisited, min_eq_left (Int.ofNat_le.mp (not_lt.mp hge)),
        ← lows_of_visited hvisited, Function.update_eq_self]
    simp only [stored, hsame]
    rfl

theorem Sound.lower (h : Sound aNodeIds.length t) (v k : Nat) :
    Sound aNodeIds.length (t.lower v k) := ⟨h.nodup, h.visited, h.lt⟩

end Steps

section Leave

variable {aNodeIds : List Int} {s t : Tarjan.State Nat} {v x : Nat} {stack : List Nat}

theorem popStack_cons (hnodup : (x :: stack).Nodup) (hx : x < aNodeIds.length) (zSCC : Text)
    (first : Bool) :
    popStack aNodeIds v ((x :: stack).map (Nat.cast ·))
        (arrayOf aNodeIds.length fun k => decide (k ∈ x :: stack)) zSCC first =
      if x = v then
        some (stack.map (Nat.cast ·), arrayOf aNodeIds.length fun k => decide (k ∈ stack),
          zSCC ++ (if first then [] else [',']) ++ Text.ofInt (idAt aNodeIds x))
      else
        popStack aNodeIds v (stack.map (Nat.cast ·))
          (arrayOf aNodeIds.length fun k => decide (k ∈ stack))
          (zSCC ++ (if first then [] else [',']) ++ Text.ofInt (idAt aNodeIds x)) false := by
  have hflags : Function.update (fun k => decide (k ∈ x :: stack)) x false =
      fun k => decide (k ∈ stack) := by
    funext k
    by_cases hk : k = x
    · subst hk
      rw [Function.update_self]
      exact (decide_eq_false (List.nodup_cons.mp hnodup).1).symm
    · rw [Function.update_of_ne hk]
      exact decide_eq_decide.mpr (List.mem_cons.trans (or_iff_right hk))
  simp only [List.map_cons, popStack, readAt_natCast, idAt_eq hx, writeAt_arrayOf _ hx, hflags,
    Option.bind_eq_bind, Option.bind_some, Int.natCast_inj]

theorem popStack_rest (v : Nat) (hnodup : stack.Nodup) (hlt : ∀ x ∈ stack, x < aNodeIds.length)
    (zSCC : Text) :
    popStack aNodeIds v (stack.map (Nat.cast ·))
        (arrayOf aNodeIds.length fun k => decide (k ∈ stack)) zSCC false =
      some ((Tarjan.popTo v stack).2.map (Nat.cast ·),
        arrayOf aNodeIds.length fun k => decide (k ∈ (Tarjan.popTo v stack).2),
        zSCC ++ (Tarjan.popTo v stack).1.flatMap fun k => ',' :: Text.ofInt (idAt aNodeIds k)) := by
  induction stack generalizing zSCC with
  | nil => simp [Tarjan.popTo, popStack]
  | cons x stack ih =>
    obtain ⟨hx, hlt⟩ := List.forall_mem_cons.mp hlt
    rw [popStack_cons hnodup hx, Tarjan.popTo]
    split
    next => simp
    next =>
      rw [ih (List.nodup_cons.mp hnodup).2 hlt]
      simp

theorem popStack_stored (v : Nat) (h : Sound aNodeIds.length t) :
    popStack aNodeIds v (t.stack.map (Nat.cast ·))
        (arrayOf aNodeIds.length fun k => decide (k ∈ t.stack)) ['['] true =
      some ((Tarjan.popTo v t.stack).2.map (Nat.cast ·),
        arrayOf aNodeIds.length fun k => decide (k ∈ (Tarjan.popTo v t.stack).2),
        '[' :: Text.join ',' (((Tarjan.popTo v t.stack).1.map (idAt aNodeIds)).map Text.ofInt)) := by
  obtain ⟨hnodup, _, hlt⟩ := h
  cases hstack : t.stack with
  | nil => rfl
  | cons x stack =>
    rw [hstack] at hnodup hlt
    obtain ⟨hx, hlt⟩ := List.forall_mem_cons.mp hlt
    rw [popStack_cons hnodup hx, Tarjan.popTo]
    split
    next => simp [Text.join]
    next =>
      rw [popStack_rest v (List.nodup_cons.mp hnodup).2 hlt]
      simp [Text.join_cons_flatMap, List.flatMap_map]

theorem Sound.leave (h : Sound aNodeIds.length t) (v : Nat) :
    Sound aNodeIds.length (t.leave v) := by
  rw [Tarjan.State.leave]
  split
  next =>
    have hsuffix := Tarjan.popTo_suffix v t.stack
    exact ⟨h.nodup.sublist hsuffix.sublist, fun x hx => h.visited x (hsuffix.subset hx),
      fun x hx => h.lt x (hsuffix.subset hx)⟩
  next => exact h

theorem leave_visited (h : t.Visited x) (v : Nat) : (t.leave v).Visited x := by
  rw [Tarjan.State.leave]
  split
  next => exact h
  next => exact h

theorem closeComponent_stored (h : Sound aNodeIds.length t) (hv : v < aNodeIds.length)
    (hvisited : t.Visited v) :
    closeComponent aNodeIds (stored aNodeIds t) v = some (stored aNodeIds (t.leave v)) := by
  obtain ⟨i, hindex⟩ := Option.ne_none_iff_exists'.mp hvisited
  have hlow : readAt (stored aNodeIds t).aLowLink v = some (t.low v : Int) := by
    rw [stored, readAt_arrayOf _ hv, lows_of_visited hvisited]
  have hread : readAt (stored aNodeIds t).aIndex v = some (i : Int) := by
    rw [stored, readAt_arrayOf _ hv, indices_of_visited hindex]
  simp only [closeComponent, hlow, hread, Option.bind_eq_bind, Option.bind_some, Int.natCast_inj]
  rw [Tarjan.State.leave, hindex]
  by_cases heq : t.low v = i
  · have hpop := popStack_stored v h
    rw [if_pos heq, if_pos (congrArg some heq.symm)]
    simp only [stored, hpop, Option.bind_some, List.map_append]
    rfl
  · rw [if_neg heq, if_neg fun hsome => heq (Option.some.inj hsome).symm]

end Leave

section Runs

variable {tables : Tables} {aNodeIds : List Int} {s t t' : Tarjan.State Nat} {v w n : Nat}
  {P Q : Tarjan.State Nat → Prop} {code : Option TarjanState} {run : Option (Tarjan.State Nat)}
  {connect : Int → TarjanState → Option TarjanState}
  {search : Nat → Tarjan.State Nat → Option (Tarjan.State Nat)}

theorem Later.refl (h : Sound aNodeIds.length t) : Later aNodeIds.length t t := ⟨h, fun _ hx => hx⟩

theorem Later.trans (h : Later aNodeIds.length s t) (h' : Later aNodeIds.length t t') :
    Later aNodeIds.length s t' := ⟨h'.sound, fun x hx => h'.visited x (h.visited x hx)⟩

theorem Tracks.some (h : P t) : Tracks aNodeIds P (some (stored aNodeIds t)) (some t) where
  eq := rfl
  post t' heq := by
    obtain rfl := Option.some.inj heq
    exact h

theorem Tracks.bind {next : TarjanState → Option TarjanState}
    {follow : Tarjan.State Nat → Option (Tarjan.State Nat)} (h : Tracks aNodeIds P code run)
    (hnext : ∀ t, P t → Tracks aNodeIds Q (next (stored aNodeIds t)) (follow t)) :
    Tracks aNodeIds Q (code.bind next) (run.bind follow) := by
  obtain ⟨rfl, hpost⟩ := h
  cases run with
  | none => exact ⟨rfl, fun _ heq => absurd heq.symm (Option.some_ne_none _)⟩
  | some t => exact hnext t (hpost t rfl)

theorem Tracks.imp (h : Tracks aNodeIds P code run) (himp : ∀ t, P t → Q t) :
    Tracks aNodeIds Q code run := ⟨h.eq, fun t ht => himp t (h.post t ht)⟩

def Connects (aNodeIds : List Int) (connect : Int → TarjanState → Option TarjanState)
    (search : Nat → Tarjan.State Nat → Option (Tarjan.State Nat)) : Prop :=
  ∀ w t, w < aNodeIds.length → Sound aNodeIds.length t → t.index w = none →
    Tracks aNodeIds (fun t' => Later aNodeIds.length t t' ∧ t'.Visited w)
      (connect w (stored aNodeIds t)) (search w t)

theorem follow_tracks (hconnect : Connects aNodeIds connect search)
    (hsorted : aNodeIds.Pairwise (· < ·)) (ht : Sound aNodeIds.length t)
    (hv : v < aNodeIds.length) (hvisited : t.Visited v) {iToId : Int}
    (hw : aNodeIds.idxOf? iToId = some w) :
    Tracks aNodeIds (Later aNodeIds.length t)
      (followRow connect aNodeIds v (stored aNodeIds t) iToId) (Tarjan.follow search v t w) := by
  have hlt : w < aNodeIds.length := (List.idxOf?_eq_some_iff.mp hw).1
  have hread : readAt (stored aNodeIds t).aIndex w = some (indices t w) := by
    rw [stored, readAt_arrayOf _ hlt]
  have hflag : readAt (stored aNodeIds t).aOnStack w = some (decide (w ∈ t.stack)) := by
    rw [stored, readAt_arrayOf _ hlt]
  rw [followRow, getNodeIndex_spec hsorted, hw, Tarjan.follow]
  simp only [Option.elim_some, hread, hflag, Option.bind_eq_bind, Option.bind_some,
    if_pos (Int.natCast_nonneg w), indices_eq_neg_one]
  cases hindex : t.index w with
  | none =>
    rw [if_pos rfl, Option.map_eq_bind]
    refine (hconnect w t hlt ht hindex).bind fun t' ht' => ?_
    obtain ⟨hlater, hw'⟩ := ht'
    have hlow : readAt (stored aNodeIds t').aLowLink w = some (t'.low w : Int) := by
      rw [stored, readAt_arrayOf _ hlt, lows_of_visited hw']
    rw [hlow, Option.bind_some, lowerTo_stored hv (hlater.visited v hvisited)]
    exact .some ⟨hlater.sound.lower v _, hlater.visited⟩
  | some i =>
    rw [if_neg (Option.some_ne_none i), indices_of_visited hindex]
    change Tracks _ _ _ (some (if w ∈ t.stack then t.lower v i else t))
    by_cases hstack : w ∈ t.stack
    · rw [decide_eq_true hstack, if_pos rfl, if_pos hstack, lowerTo_stored hv hvisited]
      exact .some ⟨ht.lower v i, fun _ hx => hx⟩
    · rw [decide_eq_false hstack, if_neg Bool.false_ne_true, if_neg hstack]
      exact .some (.refl ht)

theorem foldlM_tracks (hconnect : Connects aNodeIds connect search)
    (hsorted : aNodeIds.Pairwise (· < ·)) (hv : v < aNodeIds.length) (toIds : List Int)
    (ht : Sound aNodeIds.length t) (hvisited : t.Visited v) :
    Tracks aNodeIds (Later aNodeIds.length t)
      (toIds.foldlM (followRow connect aNodeIds v) (stored aNodeIds t))
      ((toIds.filterMap (aNodeIds.idxOf? ·)).foldlM (Tarjan.follow search v) t) := by
  induction toIds generalizing t with
  | nil => exact .some (.refl ht)
  | cons iToId toIds ih =>
    rw [List.foldlM_cons, List.filterMap_cons]
    cases hw : aNodeIds.idxOf? iToId with
    | none =>
      have hrow : followRow connect aNodeIds v (stored aNodeIds t) iToId =
          some (stored aNodeIds t) := by
        rw [followRow, getNodeIndex_spec hsorted, hw]
        rfl
      rw [hrow]
      exact ih ht hvisited
    | some w =>
      refine (follow_tracks hconnect hsorted ht hv hvisited hw).bind fun t' ht' => ?_
      exact (ih ht'.sound (ht'.visited v hvisited)).imp fun _ => ht'.trans

theorem connect_tracks (hsorted : aNodeIds.Pairwise (· < ·)) (n : Nat) :
    Connects aNodeIds (tarjanStrongConnect tables aNodeIds n)
      (Tarjan.connect (places tables aNodeIds) n) := by
  induction n with
  | zero => exact fun w t _ _ _ => ⟨rfl, fun _ heq => absurd heq.symm (Option.some_ne_none _)⟩
  | succ n ih =>
    intro w t hw ht hfresh
    rw [tarjanStrongConnect, Tarjan.connect, readAt_natCast, idAt_eq hw, Option.map_eq_bind]
    simp only [Option.bind_eq_bind, Option.bind_some, enter_stored hw]
    have hvisited : (t.enter w).Visited w := (Tarjan.State.visited_enter hfresh).mpr (.inl rfl)
    refine (foldlM_tracks ih hsorted hw _ (ht.enter hw hfresh) hvisited).bind fun t' ht' => ?_
    have hvisited' := ht'.visited w hvisited
    rw [closeComponent_stored ht'.sound hw hvisited']
    refine .some ⟨⟨ht'.sound.leave w, fun x hx => leave_visited (ht'.visited x ?_) w⟩,
      leave_visited hvisited' w⟩
    exact (Tarjan.State.visited_enter hfresh).mpr (.inr hx)

theorem components_tracks (hsorted : aNodeIds.Pairwise (· < ·)) (n : Nat) :
    (List.range aNodeIds.length).foldlM (visitNode tables aNodeIds n)
        (firstState aNodeIds.length) =
      (Tarjan.components (places tables aNodeIds) n (List.range aNodeIds.length)).map
        (stored aNodeIds) := by
  have hloop : ∀ vs : List Nat, (∀ v ∈ vs, v < aNodeIds.length) → ∀ t, Sound aNodeIds.length t →
      Tracks aNodeIds (Sound aNodeIds.length)
        (vs.foldlM (visitNode tables aNodeIds n) (stored aNodeIds t))
        (vs.foldlM (Tarjan.visit (places tables aNodeIds) n) t) := by
    intro vs hvs
    induction vs with
    | nil => exact fun t ht => .some ht
    | cons v vs ih =>
      intro t ht
      obtain ⟨hv, hvs⟩ := List.forall_mem_cons.mp hvs
      refine Tracks.bind ?_ (ih hvs)
      rw [visitNode, stored, readAt_arrayOf _ hv]
      simp only [Option.bind_eq_bind, Option.bind_some, indices_eq_neg_one, Tarjan.visit]
      split
      next hfresh =>
        exact (connect_tracks hsorted n v t hv ht hfresh).imp fun _ h => h.1.sound
      next => exact .some ht
  rw [stored_start]
  exact (hloop _ (fun v hv => List.mem_range.mp hv) _ (sound_start _)).eq

end Runs

end SqliteMultimodal.Graph.Components
