import SqliteMultimodal.Graph.Steps

namespace SqliteMultimodal.Graph

variable {host : Host} {s t : Session}

inductive Reachable (host : Host) : Session → Prop
  | create (store : Store) : Reachable host (cypherWriteContextCreate store)
  | begin {s : Session} (h : Reachable host s) : Reachable host (cypherWriteContextBegin s).2
  | call {s : Session} (h : Reachable host s) (call : WriteCall) :
      Reachable host (s.call host call).2
  | commit {s : Session} (h : Reachable host s) : Reachable host (cypherWriteContextCommit host s).2
  | rollback {s : Session} (h : Reachable host s) :
      Reachable host (cypherWriteContextRollback host s).2
  | others {s : Session} (h : Reachable host s) (hsaved : s.saved = none) (store : Store) :
      Reachable host { s with store }

def CypherWriteOp.WellFormed (op : CypherWriteOp) : Prop :=
  match op.type with
  | .createNode | .mergeNode | .setLabel | .deleteNode | .detachDeleteNode => 0 < op.iNodeId
  | .setProperty => 0 < op.iNodeId ∧ op.iRelId = 0
  | .createRelationship => 0 < op.iRelId ∧ op.zRelType ≠ none
  | .deleteRelationship | .mergeRelationship | .removeProperty | .removeLabel => True

theorem Recorded.wellFormed {store store' : Store} {op : CypherWriteOp}
    (h : Recorded host store op store') : op.WellFormed := by
  cases h with
  | createNode hpos hinsert => exact hpos
  | createRelationship hpos hinsert hfrom hto htype => exact ⟨hpos, htype⟩
  | mergeMatch hpos => exact hpos
  | mergeCreate hpos => exact hpos
  | setProperty hnode => exact ⟨(cypherStorageNodeExists_iff.mp hnode).1, rfl⟩
  | setLabel hnode => exact (cypherStorageNodeExists_iff.mp hnode).1
  | deleteNode hpos hnode hedges => exact hpos
  | detachDeleteNode hpos hnode => exact hpos
  | deleteRelationship iRelId =>
    unfold deleteRelationshipRecord
    split <;> trivial

section Execute

variable {store : Store}

theorem executeOperation_record (host : Host) (store : Store) {op : CypherWriteOp}
    (h : op.WellFormed) :
    (executeOperation host store op).2.2 = op ∨
    op.type = .mergeNode ∧ 0 < cypherFindMatchingNode host store [] [] ∧
      (executeOperation host store op).2.2 =
        { op with iNodeId := cypherFindMatchingNode host store [] [] } := by
  unfold executeOperation
  split
  next htype =>
    have hpos : 0 < op.iNodeId := by simpa only [CypherWriteOp.WellFormed, htype] using h
    exact .inl (if_neg hpos.ne')
  next htype =>
    have hpos : 0 < op.iRelId ∧ op.zRelType ≠ none := by
      simpa only [CypherWriteOp.WellFormed, htype] using h
    exact .inl (if_neg hpos.1.ne')
  next htype =>
    have hpos : 0 < op.iNodeId := by simpa only [CypherWriteOp.WellFormed, htype] using h
    unfold executeMerge
    dsimp only
    split
    next hfound => exact .inr ⟨htype, hfound, rfl⟩
    next => exact .inl (if_neg hpos.ne')
  all_goals exact .inl rfl

theorem wellFormed_executeOperation {op : CypherWriteOp} (h : op.WellFormed) :
    (executeOperation host store op).2.2.WellFormed := by
  obtain heq | ⟨htype, hfound, heq⟩ := executeOperation_record host store h
  · rw [heq]
    exact h
  · rw [heq]
    simpa only [CypherWriteOp.WellFormed, htype] using hfound

theorem cypherExecuteOperations_cons (host : Host) (store : Store) (op : CypherWriteOp)
    (ops : List CypherWriteOp) :
    (executeOperation host store op).1 ≠ .ok ∧
      cypherExecuteOperations host store (op :: ops) =
        ((executeOperation host store op).1, (executeOperation host store op).2.1,
          (executeOperation host store op).2.2 :: ops) ∨
    (executeOperation host store op).1 = .ok ∧
      cypherExecuteOperations host store (op :: ops) =
        ((cypherExecuteOperations host (executeOperation host store op).2.1 ops).1,
          (cypherExecuteOperations host (executeOperation host store op).2.1 ops).2.1,
          (executeOperation host store op).2.2 ::
            (cypherExecuteOperations host (executeOperation host store op).2.1 ops).2.2) := by
  rw [cypherExecuteOperations]
  split
  next store' op' heq =>
    rw [heq]
    exact .inr ⟨rfl, rfl⟩
  next rc store' op' hne heq =>
    rw [heq]
    exact .inl ⟨hne, rfl⟩

theorem wellFormed_cypherExecuteOperations {ops : List CypherWriteOp}
    (h : ∀ op ∈ ops, op.WellFormed) :
    ∀ op ∈ (cypherExecuteOperations host store ops).2.2, op.WellFormed := by
  induction ops generalizing store with
  | nil => exact h
  | cons op ops ih =>
    have hop : (executeOperation host store op).2.2.WellFormed :=
      wellFormed_executeOperation (h op List.mem_cons_self)
    have hops : ∀ op ∈ ops, op.WellFormed := fun op hmem => h op (List.mem_cons_of_mem _ hmem)
    obtain ⟨-, heq⟩ | ⟨-, heq⟩ := cypherExecuteOperations_cons host store op ops
    · rw [heq]
      exact List.forall_mem_cons.mpr ⟨hop, hops⟩
    · rw [heq]
      exact List.forall_mem_cons.mpr ⟨hop, ih hops⟩

theorem length_cypherExecuteOperations (ops : List CypherWriteOp) :
    (cypherExecuteOperations host store ops).2.2.length = ops.length := by
  induction ops generalizing store with
  | nil => rfl
  | cons op ops ih =>
    obtain ⟨-, heq⟩ | ⟨-, heq⟩ := cypherExecuteOperations_cons host store op ops
    · rw [heq]
      rfl
    · rw [heq]
      exact congrArg (· + 1) ih

end Execute

section Transaction

variable {S : Store}

theorem cypherWriteContextCommit_of_closed (h : s.bInTransaction = false) :
    cypherWriteContextCommit host s = (.ok, s) := by
  rw [cypherWriteContextCommit, h]
  rfl

theorem cypherWriteContextCommit_of_ok (h : s.bInTransaction = true)
    (hok : (cypherExecuteOperations host s.store s.operations).1 = .ok) :
    cypherWriteContextCommit host s =
      (.ok, { s with
        store := (cypherExecuteOperations host s.store s.operations).2.1
        operations := (cypherExecuteOperations host s.store s.operations).2.2
        saved := none
        bInTransaction := false }) := by
  rw [cypherWriteContextCommit, h]
  simp only [Bool.not_true, Bool.false_eq_true, if_false]
  split
  next heq => rw [heq]
  next hne heq =>
    rw [heq] at hok
    exact absurd hok hne

theorem cypherWriteContextCommit_of_ne_ok (h : s.bInTransaction = true) (hsaved : s.saved = some S)
    (hne : (cypherExecuteOperations host s.store s.operations).1 ≠ .ok) :
    cypherWriteContextCommit host s =
      ((cypherExecuteOperations host s.store s.operations).1, { s with
        store := cypherRollbackOperations host S
          (cypherExecuteOperations host s.store s.operations).2.2
        operations := (cypherExecuteOperations host s.store s.operations).2.2
        saved := none
        bInTransaction := false }) := by
  rw [cypherWriteContextCommit, h]
  simp only [Bool.not_true, Bool.false_eq_true, if_false, sqlRollback, hsaved]

theorem cypherWriteContextRollback_of_open (h : s.bInTransaction = true)
    (hsaved : s.saved = some S) :
    cypherWriteContextRollback host s =
      (.ok, { s with store := S, saved := none, bInTransaction := false }) := by
  rw [cypherWriteContextRollback, h]
  simp only [Bool.not_true, Bool.false_eq_true, if_false, sqlRollback, hsaved]

end Transaction

structure Session.Inv (s : Session) : Prop where
  counter : 0 < s.iNextNodeId
  saved : s.saved.isSome = s.bInTransaction
  wellFormed : ∀ op ∈ s.operations, op.WellFormed

theorem Step.inv (hstep : Step host s t) (h : s.Inv) : t.Inv := by
  cases hstep with
  | begin hbegin =>
    obtain ⟨-, rfl⟩ | ⟨-, -, rfl⟩ := cypherWriteContextBegin_eq_ok hbegin
    · exact h
    · exact ⟨h.counter, rfl, h.wellFormed⟩
  | count => exact ⟨Int.lt_add_one_of_le h.counter.le, h.saved, h.wellFormed⟩
  | record hrec =>
    refine ⟨h.counter, h.saved, fun op hmem => ?_⟩
    obtain hmem | hmem := List.mem_append.mp hmem
    · exact h.wellFormed op hmem
    · rw [List.mem_singleton.mp hmem]
      exact hrec.wellFormed

/-- A session inside a transaction that was opened over the tables `S`. -/
structure Session.Inside (S : Store) (s : Session) : Prop where
  counter : 0 < s.iNextNodeId
  saved : s.saved = some S
  bInTransaction : s.bInTransaction = true

theorem Step.inside {S : Store} (hstep : Step host s t) (h : s.Inside S) : t.Inside S := by
  cases hstep with
  | begin hbegin =>
    obtain ⟨-, rfl⟩ | ⟨hclosed, -, -⟩ := cypherWriteContextBegin_eq_ok hbegin
    · exact h
    · rw [h.bInTransaction] at hclosed
      cases hclosed
  | count => exact ⟨Int.lt_add_one_of_le h.counter.le, h.saved, h.bInTransaction⟩
  | record hrec => exact ⟨h.counter, h.saved, h.bInTransaction⟩

theorem Session.Inside.run {S : Store} (h : s.Inside S) (calls : List WriteCall) :
    (s.run host calls).Inside S :=
  run_induct (fun _ h => h.counter) (fun _ _ hstep h => hstep.inside h) h calls

theorem Session.Inv.run (h : s.Inv) (calls : List WriteCall) : (s.run host calls).Inv :=
  run_induct (fun _ h => h.counter) (fun _ _ hstep h => hstep.inv h) h calls

theorem Session.Inv.inside (h : s.Inv) (htrans : s.bInTransaction = true) : ∃ S, s.Inside S := by
  obtain ⟨S, hsaved⟩ := Option.isSome_iff_exists.mp (h.saved.trans htrans)
  exact ⟨S, h.counter, hsaved, htrans⟩

theorem Session.Inv.commit (h : s.Inv) : (cypherWriteContextCommit host s).2.Inv := by
  cases htrans : s.bInTransaction with
  | false =>
    rw [cypherWriteContextCommit_of_closed htrans]
    exact h
  | true =>
    obtain ⟨S, hsaved⟩ := Option.isSome_iff_exists.mp (h.saved.trans htrans)
    by_cases hok : (cypherExecuteOperations host s.store s.operations).1 = .ok
    · rw [cypherWriteContextCommit_of_ok htrans hok]
      exact ⟨h.counter, rfl, wellFormed_cypherExecuteOperations h.wellFormed⟩
    · rw [cypherWriteContextCommit_of_ne_ok htrans hsaved hok]
      exact ⟨h.counter, rfl, wellFormed_cypherExecuteOperations h.wellFormed⟩

theorem Session.Inv.rollback (h : s.Inv) : (cypherWriteContextRollback host s).2.Inv := by
  cases htrans : s.bInTransaction with
  | false =>
    rw [cypherWriteContextRollback, htrans]
    exact h
  | true =>
    obtain ⟨S, hsaved⟩ := Option.isSome_iff_exists.mp (h.saved.trans htrans)
    rw [cypherWriteContextRollback_of_open htrans hsaved]
    exact ⟨h.counter, rfl, h.wellFormed⟩

theorem Reachable.inv (h : Reachable host s) : s.Inv := by
  induction h with
  | create store => exact ⟨Int.one_pos, rfl, fun op hmem => absurd hmem List.not_mem_nil⟩
  | @begin s h ih =>
    by_cases hok : (cypherWriteContextBegin s).1 = .ok
    · have hstep : Step host s (cypherWriteContextBegin s).2 := .begin (Prod.ext hok rfl)
      exact hstep.inv ih
    · rw [cypherWriteContextBegin_ne_ok hok]
      exact ih
  | call h call ih =>
    exact call_induct (fun _ h => h.counter) (fun _ _ hstep h => hstep.inv h) ih call
  | commit h ih => exact ih.commit
  | rollback h ih => exact ih.rollback
  | others h hsaved store ih => exact ⟨ih.counter, ih.saved, ih.wellFormed⟩

end SqliteMultimodal.Graph
