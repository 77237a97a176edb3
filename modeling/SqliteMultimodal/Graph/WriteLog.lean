import SqliteMultimodal.Graph.Steps
import SqliteMultimodal.Lib.Heap

/-! The log of the write operations as a list in memory.  A call links its record before it writes,
and each has its own way to deal with a write that fails.  Allocations succeed. -/

namespace SqliteMultimodal.Graph.WriteLog

/-- A record in memory. -/
structure OpCell where
  op : CypherWriteOp
  pNext : Option Nat

/-- What a write context keeps of its log, and the memory of the records. -/
structure CypherWriteContext where
  heap : Heap OpCell
  pOperations : Option Nat
  pLastOp : Option Nat
  nOperations : Int
  bInTransaction : Bool

def cypherWriteContextCreate : CypherWriteContext := ⟨fun _ => none, none, none, 0, false⟩

section Log

variable (ctx : CypherWriteContext)

def maxInt : Int := 2147483647

def cypherWriteOpCreate (pOp : Nat) (op : CypherWriteOp) : CypherWriteContext :=
  { ctx with heap := ctx.heap.store pOp ⟨op, none⟩ }

def cypherWriteOpDestroy (pOp : Nat) : Option CypherWriteContext :=
  (ctx.heap pOp).map fun _ => { ctx with heap := ctx.heap.free pOp }

def setNext (pOp : Nat) (pNext : Option Nat) : Option CypherWriteContext :=
  (ctx.heap pOp).map fun cell => { ctx with heap := ctx.heap.store pOp { cell with pNext } }

def link (pOp : Nat) : Option CypherWriteContext :=
  match ctx.pLastOp with
  | some pLastOp => setNext ctx pLastOp (some pOp)
  | none => some { ctx with pOperations := some pOp }

def cypherWriteContextAddOperation (pOp : Nat) : Option CypherWriteContext :=
  if ctx.nOperations < maxInt then
    (link ctx pOp).map fun ctx =>
      { ctx with pLastOp := some pOp, nOperations := ctx.nOperations + 1 }
  else none

/-- The record before `pToRemove`, where there is one. -/
def findPrevious (heap : Heap OpCell) (pToRemove : Nat) :
    Nat → Option Nat → Option Nat → Option (Option Nat)
  | 0, _, _ => none
  | _ + 1, pPrev, none => some pPrev
  | fuel + 1, pPrev, some pOp =>
    if pOp = pToRemove then some pPrev
    else (heap pOp).bind fun cell => findPrevious heap pToRemove fuel (some pOp) cell.pNext

def unlink : Option Nat → Option CypherWriteContext
  | some pPrev => (setNext ctx pPrev none).map fun ctx => { ctx with pLastOp := some pPrev }
  | none => some { ctx with pOperations := none, pLastOp := none }

def cypherWriteContextRollbackOp (fuel : Nat) : Option CypherWriteContext :=
  match ctx.pLastOp with
  | none => some ctx
  | some pToRemove => do
    let pPrev ← findPrevious ctx.heap pToRemove fuel none ctx.pOperations
    let ctx ← unlink ctx pPrev
    let ctx ← cypherWriteOpDestroy ctx pToRemove
    some { ctx with nOperations := ctx.nOperations - 1 }

def cypherWriteContextBeginOp (rcBegin : ResultCode) : ResultCode × CypherWriteContext :=
  if ctx.bInTransaction then (.ok, ctx)
  else if rcBegin = .ok then (.ok, { ctx with bInTransaction := true })
  else (rcBegin, ctx)

def addRecord (pOp : Nat) (op : CypherWriteOp) : Option CypherWriteContext :=
  cypherWriteContextAddOperation (cypherWriteOpCreate ctx pOp op) pOp

end Log

section Calls

/-- What the statements of a call return, with the address that its record gets, and what binding
a variable returns.  A value that is not read is `none`. -/
structure Answers where
  nodeExists : Int → Bool
  iNewId : Int
  rcBegin : ResultCode
  pWriteOp : Nat
  zOldValue : Option Text
  zOldLabels : Option Text
  zRelationships : Text
  oldNode : Option NodeRow
  oldEdge : Option EdgeRow
  rcWrite : ResultCode
  rcBind : ResultCode

variable (host : Host) (fuel : Nat) (ctx : CypherWriteContext) (answers : Answers)

def cypherValidateNodeExists (iNodeId : Int) : Check :=
  reject (iNodeId ≤ 0 || !answers.nodeExists iNodeId) .error

def unlessRefused (check : Check) (accepted : Option (ResultCode × CypherWriteContext)) :
    Option (ResultCode × CypherWriteContext) :=
  match check with
  | some rc => some (rc, ctx)
  | none => accepted

def createNodeRecord (op : CreateNodeOp) : CypherWriteOp :=
  { type := .createNode
    iNodeId := answers.iNewId
    zNewLabels := some (labelsJson (op.azLabels.map cypherSanitizeString))
    pNewValue := some (.string (some (createNodeProps host op.properties))) }

def cypherCreateNode (op : CreateNodeOp) : Option (ResultCode × CypherWriteContext) :=
  unlessRefused ctx (op.check <|> reject (answers.iNewId ≤ 0) .error) <|
    match cypherWriteContextBeginOp ctx answers.rcBegin with
    | (.ok, ctx) => do
      let ctx ← addRecord ctx answers.pWriteOp (createNodeRecord host answers op)
      if answers.rcWrite ≠ .ok then
        (cypherWriteContextRollbackOp ctx fuel).map fun ctx => (answers.rcWrite, ctx)
      else if op.zVariable.isSome && answers.rcBind ≠ .ok then
        (cypherWriteContextRollbackOp ctx fuel).map fun ctx => (answers.rcBind, ctx)
      else some (.ok, ctx)
    | (rc, ctx) => some (rc, ctx)

def refusesRelationship (op : CreateRelOp) : Check :=
  op.check <|> cypherValidateNodeExists answers op.iFromNodeId <|>
    cypherValidateNodeExists answers op.iToNodeId <|> reject (answers.iNewId ≤ 0) .error <|>
      reject (createRelProps host op.properties).isNone .nomem

def createRelationshipRecord (op : CreateRelOp) : CypherWriteOp :=
  { type := .createRelationship
    iRelId := answers.iNewId
    iFromId := op.iFromNodeId
    iToId := op.iToNodeId
    zRelType := some op.zRelType }

def cypherCreateRelationship (op : CreateRelOp) : Option (ResultCode × CypherWriteContext) :=
  unlessRefused ctx (refusesRelationship host answers op) do
    let ctx ← addRecord ctx answers.pWriteOp (createRelationshipRecord answers op)
    if answers.rcWrite ≠ .ok then
      (cypherWriteOpDestroy ctx answers.pWriteOp).map fun ctx => (answers.rcWrite, ctx)
    else if op.zRelVar.isSome && answers.rcBind ≠ .ok then some (answers.rcBind, ctx)
    else some (.ok, ctx)

def setPropertyRecord (op : SetPropertyOp) : CypherWriteOp :=
  { type := .setProperty
    iNodeId := op.iNodeId
    zProperty := some op.zProperty
    pOldValue := some (answers.zOldValue.elim .null fun z => .string (some z))
    pNewValue := some op.value }

def recordAndWrite (op : CypherWriteOp) (rcWrite : ResultCode) :
    Option (ResultCode × CypherWriteContext) :=
  (addRecord ctx answers.pWriteOp op).map fun ctx => (rcWrite, ctx)

def cypherSetProperty (op : SetPropertyOp) : Option (ResultCode × CypherWriteContext) :=
  unlessRefused ctx (cypherValidateNodeExists answers op.iNodeId)
    (recordAndWrite ctx answers (setPropertyRecord answers op) answers.rcWrite)

def setLabelRecord (op : SetLabelOp) : CypherWriteOp :=
  { type := .setLabel
    iNodeId := op.iNodeId
    zNewLabels := some (labelsJson op.azLabels)
    zOldLabels := some (answers.zOldLabels.getD "[]".toList) }

def cypherSetLabel (op : SetLabelOp) : Option (ResultCode × CypherWriteContext) :=
  unlessRefused ctx (cypherValidateNodeExists answers op.iNodeId)
    (recordAndWrite ctx answers (setLabelRecord answers op) answers.rcWrite)

/-- A node with relationships is not deleted without `DETACH`. -/
def refusesDelete (op : DeleteOp) : Check :=
  if op.bIsNode then
    cypherValidateNodeExists answers op.iNodeId <|>
      reject (!op.bDetach && answers.zRelationships.length > 2) .error
  else none

def deleteRecord (op : DeleteOp) : CypherWriteOp :=
  if op.bIsNode then
    deleteNodeRecord (if op.bDetach then .detachDeleteNode else .deleteNode) op.iNodeId
      answers.oldNode
  else deleteRelationshipRecord op.iRelId answers.oldEdge

def rcDelete (op : DeleteOp) : ResultCode :=
  if !op.bIsNode && op.iRelId ≤ 0 then .misuse else answers.rcWrite

def cypherDelete (op : DeleteOp) : Option (ResultCode × CypherWriteContext) :=
  unlessRefused ctx (refusesDelete answers op)
    (recordAndWrite ctx answers (deleteRecord answers op) (rcDelete answers op))

inductive Call
  | createNode (op : CreateNodeOp)
  | createRelationship (op : CreateRelOp)
  | setProperty (op : SetPropertyOp)
  | setLabel (op : SetLabelOp)
  | delete (op : DeleteOp)

def Call.run : Call → Option (ResultCode × CypherWriteContext)
  | .createNode op => cypherCreateNode host fuel ctx answers op
  | .createRelationship op => cypherCreateRelationship host ctx answers op
  | .setProperty op => cypherSetProperty ctx answers op
  | .setLabel op => cypherSetLabel ctx answers op
  | .delete op => cypherDelete ctx answers op

def Call.record : Call → CypherWriteOp
  | .createNode op => createNodeRecord host answers op
  | .createRelationship op => createRelationshipRecord answers op
  | .setProperty op => setPropertyRecord answers op
  | .setLabel op => setLabelRecord answers op
  | .delete op => deleteRecord answers op

end Calls

section Contents

variable {ctx ctx' : CypherWriteContext} {as : List Nat} {ops : List CypherWriteOp}
  {op : CypherWriteOp} {pOp : Nat}

/-- The records in memory, one after the other, none of them destroyed. -/
structure Lists (ctx : CypherWriteContext) (as : List Nat) (ops : List CypherWriteOp) : Prop where
  linked : Heap.Linked OpCell.pNext ctx.heap ctx.pOperations as
  live : as.map (fun a => (ctx.heap a).map OpCell.op) = ops.map some
  last : ctx.pLastOp = as.getLast?
  count : ctx.nOperations = as.length

def Represents (ctx : CypherWriteContext) (ops : List CypherWriteOp) : Prop :=
  ∃ as, Lists ctx as ops

theorem Lists.length_eq (h : Lists ctx as ops) : as.length = ops.length := by
  have hlen := congrArg List.length h.live
  rwa [List.length_map, List.length_map] at hlen

theorem Represents.nOperations_eq (h : Represents ctx ops) : ctx.nOperations = ops.length := by
  obtain ⟨as, h⟩ := h
  rw [h.count, h.length_eq]

theorem represents_create : Represents cypherWriteContextCreate [] :=
  ⟨[], rfl, rfl, rfl, rfl⟩

theorem Represents.begin (h : Represents ctx ops) (bInTransaction : Bool) :
    Represents { ctx with bInTransaction } ops := by
  obtain ⟨as, h⟩ := h
  exact ⟨as, h.linked, h.live, h.last, h.count⟩

theorem nOperations_addRecord (h : addRecord ctx pOp op = some ctx') :
    ctx'.nOperations = ctx.nOperations + 1 := by
  rw [addRecord, cypherWriteContextAddOperation] at h
  split at h
  next =>
    obtain ⟨linked, hlink, rfl⟩ := Option.map_eq_some_iff.mp h
    rw [link] at hlink
    dsimp only [cypherWriteOpCreate] at hlink
    split at hlink
    next =>
      obtain ⟨cell, -, rfl⟩ := Option.map_eq_some_iff.mp hlink
      rfl
    next =>
      obtain rfl := Option.some.inj hlink
      rfl
  next => cases h

theorem map_op_store {heap : Heap OpCell} {k : Nat} {cell : OpCell} (hk : heap k = some cell)
    (pNext : Option Nat) (b : Nat) :
    (heap.store k ⟨cell.op, pNext⟩ b).map OpCell.op = (heap b).map OpCell.op := by
  by_cases hbk : b = k
  · rw [hbk, Heap.store_self, hk]
    rfl
  · rw [Heap.store_ne hbk]

theorem Lists.addRecord (h : Lists ctx as ops) (hfree : ctx.heap pOp = none)
    (hcount : ctx.nOperations < maxInt) (op : CypherWriteOp) :
    ∃ ctx', addRecord ctx pOp op = some ctx' ∧ Lists ctx' (as ++ [pOp]) (ops ++ [op]) := by
  obtain rfl | ⟨bs, l, rfl⟩ := List.eq_nil_or_concat' as
  · have hops : ops = [] := List.eq_nil_of_length_eq_zero h.length_eq.symm
    have hlast : ctx.pLastOp = none := h.last
    refine ⟨⟨ctx.heap.store pOp ⟨op, none⟩, some pOp, some pOp, ctx.nOperations + 1,
      ctx.bInTransaction⟩, ?_, ⟨rfl, _, Heap.store_self _ _ _, rfl⟩, ?_, rfl, ?_⟩
    · simp only [WriteLog.addRecord, cypherWriteContextAddOperation, cypherWriteOpCreate, link,
        hlast, if_pos hcount, Option.map_some]
    · rw [hops]
      simp only [List.nil_append, List.map_cons, List.map_nil, Heap.store_self, Option.map_some]
    · dsimp only
      rw [h.count]
      rfl
  · have hlast : ctx.pLastOp = some l := h.last.trans List.getLast?_concat
    obtain ⟨cell, hcell⟩ := h.linked.live (List.mem_append_right bs List.mem_cons_self)
    have hne : ∀ b ∈ bs ++ [l], b ≠ pOp := by
      rintro b hb rfl
      obtain ⟨x, hx⟩ := h.linked.live hb
      exact Option.some_ne_none x (hx.symm.trans hfree)
    have hl : l ≠ pOp := hne l (List.mem_append_right bs List.mem_cons_self)
    refine ⟨⟨(ctx.heap.store pOp ⟨op, none⟩).store l ⟨cell.op, some pOp⟩, ctx.pOperations, some pOp,
      ctx.nOperations + 1, ctx.bInTransaction⟩, ?_, h.linked.snoc hfree rfl rfl, ?_,
      List.getLast?_concat.symm, ?_⟩
    · simp only [WriteLog.addRecord, cypherWriteContextAddOperation, cypherWriteOpCreate, link,
        hlast, if_pos hcount, setNext, Heap.store_ne hl, hcell, Option.map_some]
    · rw [List.map_append, @List.map_append _ _ _ ops, ← h.live]
      congr 1
      · refine List.map_congr_left fun b hb => ?_
        exact (map_op_store ((Heap.store_ne hl _ _).trans hcell) _ b).trans
          (congrArg _ (Heap.store_ne (hne b hb) _ _))
      · dsimp only
        rw [List.map_cons, List.map_nil, Heap.store_ne hl.symm, Heap.store_self]
        rfl
    · dsimp only
      rw [h.count, @List.length_append _ _ [pOp], List.length_singleton, Int.natCast_succ]

theorem Represents.addRecord (h : Represents ctx ops) (hfree : ctx.heap pOp = none)
    (hadd : addRecord ctx pOp op = some ctx') : Represents ctx' (ops ++ [op]) := by
  obtain ⟨as, h⟩ := h
  have hcount : ctx.nOperations < maxInt := by
    by_contra hcount
    rw [WriteLog.addRecord, cypherWriteContextAddOperation, cypherWriteOpCreate,
      if_neg hcount] at hadd
    cases hadd
  obtain ⟨ctx₁, hadd₁, h₁⟩ := h.addRecord hfree hcount op
  obtain rfl := Option.some.inj (hadd.symm.trans hadd₁)
  exact ⟨_, h₁⟩

theorem getLast?_cons_or (a : Nat) (as : List Nat) (prev : Option Nat) :
    (a :: as).getLast?.or prev = as.getLast?.or (some a) := by
  cases as with
  | nil => rfl
  | cons b bs => simp [List.getLast?_cons]

theorem findPrevious_eq {heap : Heap OpCell} {l fuel : Nat} {p prev : Option Nat}
    (h : Heap.Linked OpCell.pNext heap p (as ++ [l])) (hl : l ∉ as) :
    findPrevious heap l fuel prev p =
      if as.length < fuel then some (as.getLast?.or prev) else none := by
  induction as generalizing fuel p prev with
  | nil =>
    obtain ⟨rfl, -⟩ := h
    cases fuel with
    | zero => rfl
    | succ fuel =>
      rw [findPrevious, if_pos rfl, List.length_nil, if_pos (Nat.zero_lt_succ fuel)]
      rfl
  | cons a as ih =>
    obtain ⟨rfl, cell, hcell, hrest⟩ := h
    cases fuel with
    | zero => rfl
    | succ fuel =>
      rw [findPrevious, if_neg (List.ne_of_not_mem_cons hl).symm, hcell, Option.bind_some,
        ih hrest (List.not_mem_of_not_mem_cons hl), getLast?_cons_or, List.length_cons]
      simp only [Nat.add_lt_add_iff_right]

theorem Lists.rollbackOp {l : Nat} (h : Lists ctx (as ++ [l]) (ops ++ [op])) (fuel : Nat) :
    ∃ ctx', Lists ctx' as ops ∧ cypherWriteContextRollbackOp ctx fuel =
      if as.length < fuel then some ctx' else none := by
  have hnodup := h.linked.nodup
  have hl : l ∉ as := fun hmem => (List.nodup_append.mp hnodup).2.2 l hmem l List.mem_cons_self rfl
  have hlast : ctx.pLastOp = some l := h.last.trans List.getLast?_concat
  have hlive : as.map (fun a => (ctx.heap a).map OpCell.op) = ops.map some := by
    have hlive := h.live
    rw [List.map_append, @List.map_append _ _ _ ops] at hlive
    exact List.append_inj_left' hlive rfl
  have hcount : ctx.nOperations - 1 = as.length := by
    rw [h.count, List.length_append, List.length_singleton, Int.natCast_succ, Int.add_sub_cancel]
  obtain ⟨last, hcell⟩ := h.linked.live (List.mem_append_right as List.mem_cons_self)
  rw [cypherWriteContextRollbackOp, hlast]
  dsimp only
  rw [findPrevious_eq h.linked hl]
  obtain rfl | ⟨bs, k, rfl⟩ := List.eq_nil_or_concat' as
  · refine ⟨⟨ctx.heap.free l, none, none, ctx.nOperations - 1, ctx.bInTransaction⟩,
      ⟨rfl, hlive, rfl, hcount⟩, ?_⟩
    split
    next => simp [unlink, cypherWriteOpDestroy, hcell]
    next => rfl
  · obtain ⟨cell, hk⟩ :=
      h.linked.live (List.mem_append_left [l] (List.mem_append_right bs List.mem_cons_self))
    have hkl : l ≠ k := fun hkl => hl (hkl ▸ List.mem_append_right bs List.mem_cons_self)
    refine ⟨⟨(ctx.heap.store k ⟨cell.op, none⟩).free l, ctx.pOperations, some k,
      ctx.nOperations - 1, ctx.bInTransaction⟩, ⟨h.linked.dropLast rfl, ?_,
      List.getLast?_concat.symm, hcount⟩, ?_⟩
    · rw [← hlive]
      refine List.map_congr_left fun b hb => ?_
      have hbl : b ≠ l := fun hbl => hl (hbl ▸ hb)
      dsimp only
      rw [Heap.free_ne hbl, map_op_store hk]
    · split
      next => simp [unlink, setNext, hk, cypherWriteOpDestroy, Heap.store_ne hkl, hcell]
      next => rfl

theorem Represents.rollbackOp {fuel : Nat} (h : Represents ctx (ops ++ [op]))
    (hrollback : cypherWriteContextRollbackOp ctx fuel = some ctx') : Represents ctx' ops := by
  obtain ⟨as, h⟩ := h
  obtain rfl | ⟨bs, l, rfl⟩ := List.eq_nil_or_concat' as
  · have hlen := h.length_eq
    rw [List.length_append, List.length_nil] at hlen
    exact absurd hlen.symm (Nat.succ_ne_zero _)
  · obtain ⟨ctx₁, h₁, heq⟩ := h.rollbackOp fuel
    rw [hrollback] at heq
    split at heq
    next =>
      obtain rfl := Option.some.inj heq
      exact ⟨bs, h₁⟩
    next => cases heq

end Contents

section Runs

abbrev Trace := List (Call × Answers × ResultCode)

variable (host : Host)

inductive Runs : Trace → CypherWriteContext → Prop
  | create : Runs [] cypherWriteContextCreate
  | call {trace : Trace} {ctx ctx' : CypherWriteContext} {c : Call} {answers : Answers}
      {rc : ResultCode} (fuel : Nat) (h : Runs trace ctx) (hfree : ctx.heap answers.pWriteOp = none)
      (hcall : c.run host fuel ctx answers = some (rc, ctx')) :
      Runs (trace ++ [(c, answers, rc)]) ctx'

/-- The records of the calls that returned `SQLITE_OK`. -/
def applied (trace : Trace) : List CypherWriteOp :=
  (trace.filter fun x => x.2.2 = .ok).map fun x => x.1.record host x.2.1

variable (answers : Answers)

def Call.Meets : Call → Prop
  | .createNode _ => True
  | .createRelationship op => refusesRelationship host answers op = none →
      answers.rcWrite = .ok ∧ (op.zRelVar.isSome → answers.rcBind = .ok)
  | .setProperty op =>
    cypherValidateNodeExists answers op.iNodeId = none → answers.rcWrite = .ok
  | .setLabel op => cypherValidateNodeExists answers op.iNodeId = none → answers.rcWrite = .ok
  | .delete op => refusesDelete answers op = none →
      (op.bIsNode ∨ 0 < op.iRelId) ∧ answers.rcWrite = .ok

variable {host answers} {ctx ctx' : CypherWriteContext} {c : Call} {rc : ResultCode} {fuel : Nat}
  {ops : List CypherWriteOp} {trace : Trace}

theorem applied_snoc (trace : Trace) (c : Call) (answers : Answers) (rc : ResultCode) :
    applied host (trace ++ [(c, answers, rc)]) =
      if rc = .ok then applied host trace ++ [c.record host answers] else applied host trace := by
  rw [applied, List.filter_append, List.map_append]
  split
  next hrc => simp [hrc, applied]
  next hrc => simp [hrc, applied]

theorem Represents.unlessRefused {check : Check} {op : CypherWriteOp}
    {accepted : Option (ResultCode × CypherWriteContext)} (hlog : Represents ctx ops)
    (hcheck : check ≠ some .ok)
    (haccepted : check = none → accepted = some (rc, ctx') →
      Represents ctx' (if rc = .ok then ops ++ [op] else ops))
    (h : unlessRefused ctx check accepted = some (rc, ctx')) :
    Represents ctx' (if rc = .ok then ops ++ [op] else ops) := by
  cases check with
  | none => exact haccepted rfl h
  | some rc' =>
    obtain ⟨rfl, rfl⟩ := Prod.mk.inj (Option.some.inj h)
    rwa [if_neg fun hrc => hcheck (congrArg some hrc)]

theorem nOperations_recordAndWrite {op : CypherWriteOp} {rcWrite : ResultCode}
    (h : recordAndWrite ctx answers op rcWrite = some (rc, ctx')) :
    rc = rcWrite ∧ ctx'.nOperations = ctx.nOperations + 1 := by
  obtain ⟨ctx₁, hadd, heq⟩ := Option.map_eq_some_iff.mp h
  obtain ⟨rfl, rfl⟩ := Prod.mk.inj heq
  exact ⟨rfl, nOperations_addRecord hadd⟩

theorem Represents.recordAndWrite {op : CypherWriteOp} {rcWrite : ResultCode}
    (hlog : Represents ctx ops) (hfree : ctx.heap answers.pWriteOp = none)
    (h : recordAndWrite ctx answers op rcWrite = some (rc, ctx')) :
    Represents ctx' (ops ++ [op]) := by
  obtain ⟨ctx₁, hadd, heq⟩ := Option.map_eq_some_iff.mp h
  obtain ⟨-, rfl⟩ := Prod.mk.inj heq
  exact hlog.addRecord hfree hadd

theorem begin_eq {rcBegin : ResultCode} :
    cypherWriteContextBeginOp ctx rcBegin = (rc, ctx') →
      (rc = .ok → ∃ bInTransaction, ctx' = { ctx with bInTransaction }) ∧
        (rc ≠ .ok → ctx' = ctx) := by
  intro h
  rw [cypherWriteContextBeginOp] at h
  split_ifs at h with htrans hbegin
  · obtain ⟨rfl, rfl⟩ := Prod.mk.inj h
    exact ⟨fun _ => ⟨ctx.bInTransaction, rfl⟩, fun _ => rfl⟩
  · obtain ⟨rfl, rfl⟩ := Prod.mk.inj h
    exact ⟨fun _ => ⟨true, rfl⟩, fun hne => absurd rfl hne⟩
  · obtain ⟨rfl, rfl⟩ := Prod.mk.inj h
    exact ⟨fun heq => absurd heq hbegin, fun _ => rfl⟩

theorem Represents.rolledBack {op : CypherWriteOp} {rcFail : ResultCode} (hne : rcFail ≠ .ok)
    (hlog : Represents ctx (ops ++ [op]))
    (h : (cypherWriteContextRollbackOp ctx fuel).map (fun ctx => (rcFail, ctx)) = some (rc, ctx')) :
    Represents ctx' (if rc = .ok then ops ++ [op] else ops) := by
  obtain ⟨ctx₁, hrollback, heq⟩ := Option.map_eq_some_iff.mp h
  obtain ⟨rfl, rfl⟩ := Prod.mk.inj heq
  rw [if_neg hne]
  exact hlog.rollbackOp hrollback

theorem Represents.createNode {op : CreateNodeOp} (hlog : Represents ctx ops)
    (hfree : ctx.heap answers.pWriteOp = none)
    (h : cypherCreateNode host fuel ctx answers op = some (rc, ctx')) :
    Represents ctx' (if rc = .ok then ops ++ [createNodeRecord host answers op] else ops) := by
  refine hlog.unlessRefused (orElse_ne_ok op.check_ne_ok (reject_ne_ok _ (by decide)))
    (fun _ h => ?_) h
  split at h
  next ctx₁ hbegin =>
    obtain ⟨bInTransaction, rfl⟩ := (begin_eq hbegin).1 rfl
    obtain ⟨ctx₂, hadd, h⟩ := Option.bind_eq_some_iff.mp h
    have hlog₂ := (hlog.begin bInTransaction).addRecord hfree hadd
    split_ifs at h with hwrite hbind
    · exact hlog₂.rolledBack hwrite h
    · rw [Bool.and_eq_true, decide_eq_true_eq] at hbind
      exact hlog₂.rolledBack hbind.2 h
    · obtain ⟨rfl, rfl⟩ := Prod.mk.inj (Option.some.inj h)
      rwa [if_pos rfl]
  next rc' ctx₁ hne hbegin =>
    obtain ⟨rfl, rfl⟩ := Prod.mk.inj (Option.some.inj h)
    rw [if_neg hne, (begin_eq hbegin).2 hne]
    exact hlog

theorem createRelationship_cases {op : CreateRelOp}
    (haccept : refusesRelationship host answers op = none)
    (h : cypherCreateRelationship host ctx answers op = some (rc, ctx')) :
    (answers.rcWrite = .ok ∧ (op.zRelVar.isSome → answers.rcBind = .ok)) ∧ rc = .ok ∧
        addRecord ctx answers.pWriteOp (createRelationshipRecord answers op) = some ctx' ∨
      ¬(answers.rcWrite = .ok ∧ (op.zRelVar.isSome → answers.rcBind = .ok)) ∧ rc ≠ .ok ∧
        ctx'.nOperations = ctx.nOperations + 1 := by
  rw [cypherCreateRelationship, haccept] at h
  obtain ⟨ctx₁, hadd, h⟩ := Option.bind_eq_some_iff.mp h
  have hcount := nOperations_addRecord hadd
  split_ifs at h with hwrite hbind
  · obtain ⟨ctx₂, hdestroy, heq⟩ := Option.map_eq_some_iff.mp h
    obtain ⟨rfl, rfl⟩ := Prod.mk.inj heq
    obtain ⟨cell, -, rfl⟩ := Option.map_eq_some_iff.mp hdestroy
    exact .inr ⟨fun hok => hwrite hok.1, hwrite, hcount⟩
  · obtain ⟨rfl, rfl⟩ := Prod.mk.inj (Option.some.inj h)
    rw [Bool.and_eq_true, decide_eq_true_eq] at hbind
    exact .inr ⟨fun hok => hbind.2 (hok.2 hbind.1), hbind.2, hcount⟩
  · obtain ⟨rfl, rfl⟩ := Prod.mk.inj (Option.some.inj h)
    rw [Bool.and_eq_true, decide_eq_true_eq, not_and, not_not] at hbind
    exact .inl ⟨⟨not_not.mp hwrite, hbind⟩, rfl, hadd⟩

theorem validate_ne_ok (iNodeId : Int) : cypherValidateNodeExists answers iNodeId ≠ some .ok :=
  reject_ne_ok _ (by decide)

theorem refusesRelationship_ne_ok (op : CreateRelOp) :
    refusesRelationship host answers op ≠ some .ok :=
  orElse_ne_ok op.check_ne_ok <| orElse_ne_ok (validate_ne_ok _) <|
    orElse_ne_ok (validate_ne_ok _) <| orElse_ne_ok (reject_ne_ok _ (by decide))
      (reject_ne_ok _ (by decide))

theorem refusesDelete_ne_ok (op : DeleteOp) : refusesDelete answers op ≠ some .ok := by
  rw [refusesDelete]
  split
  next => exact orElse_ne_ok (validate_ne_ok _) (reject_ne_ok _ (by decide))
  next => exact (Option.some_ne_none _).symm

theorem rcDelete_eq_ok {op : DeleteOp} :
    rcDelete answers op = .ok ↔ (op.bIsNode ∨ 0 < op.iRelId) ∧ answers.rcWrite = .ok := by
  rw [rcDelete]
  split
  next hbad =>
    rw [Bool.and_eq_true, Bool.not_eq_true', decide_eq_true_eq] at hbad
    refine iff_of_false (by decide) fun hok => ?_
    obtain hnode | hpos := hok.1
    · rw [hbad.1] at hnode
      cases hnode
    · exact absurd hbad.2 (not_le.mpr hpos)
  next hgood =>
    rw [Bool.and_eq_true, Bool.not_eq_true', decide_eq_true_eq, not_and_or, Bool.not_eq_false,
      not_le] at hgood
    exact ⟨fun hok => ⟨hgood, hok⟩, fun hok => hok.2⟩

theorem Represents.run (hlog : Represents ctx ops) (hfree : ctx.heap answers.pWriteOp = none)
    (hmeets : c.Meets host answers) (h : c.run host fuel ctx answers = some (rc, ctx')) :
    Represents ctx' (if rc = .ok then ops ++ [c.record host answers] else ops) := by
  cases c with
  | createNode op => exact hlog.createNode hfree h
  | createRelationship op =>
    refine hlog.unlessRefused (refusesRelationship_ne_ok op) (fun haccept _ => ?_) h
    obtain ⟨-, hrc, hadd⟩ | ⟨hnot, -⟩ := createRelationship_cases haccept h
    · rw [if_pos hrc]
      exact hlog.addRecord hfree hadd
    · exact absurd (hmeets haccept) hnot
  | setProperty op =>
    refine hlog.unlessRefused (validate_ne_ok _) (fun haccept h => ?_) h
    rw [if_pos ((nOperations_recordAndWrite h).1.trans (hmeets haccept))]
    exact hlog.recordAndWrite hfree h
  | setLabel op =>
    refine hlog.unlessRefused (validate_ne_ok _) (fun haccept h => ?_) h
    rw [if_pos ((nOperations_recordAndWrite h).1.trans (hmeets haccept))]
    exact hlog.recordAndWrite hfree h
  | delete op =>
    refine hlog.unlessRefused (refusesDelete_ne_ok op) (fun haccept h => ?_) h
    rw [if_pos ((nOperations_recordAndWrite h).1.trans (rcDelete_eq_ok.mpr (hmeets haccept)))]
    exact hlog.recordAndWrite hfree h

theorem run_of_not_meets (hmeets : ¬c.Meets host answers)
    (h : c.run host fuel ctx answers = some (rc, ctx')) :
    rc ≠ .ok ∧ ctx'.nOperations = ctx.nOperations + 1 := by
  cases c with
  | createNode op => exact absurd trivial hmeets
  | createRelationship op =>
    obtain ⟨haccept, hnot⟩ := Classical.not_imp.mp hmeets
    obtain ⟨hok, -⟩ | ⟨-, hrc, hcount⟩ := createRelationship_cases haccept h
    · exact absurd hok hnot
    · exact ⟨hrc, hcount⟩
  | setProperty op =>
    obtain ⟨haccept, hnot⟩ := Classical.not_imp.mp hmeets
    rw [Call.run, cypherSetProperty, haccept] at h
    obtain ⟨rfl, hcount⟩ := nOperations_recordAndWrite h
    exact ⟨hnot, hcount⟩
  | setLabel op =>
    obtain ⟨haccept, hnot⟩ := Classical.not_imp.mp hmeets
    rw [Call.run, cypherSetLabel, haccept] at h
    obtain ⟨rfl, hcount⟩ := nOperations_recordAndWrite h
    exact ⟨hnot, hcount⟩
  | delete op =>
    obtain ⟨haccept, hnot⟩ := Classical.not_imp.mp hmeets
    rw [Call.run, cypherDelete, haccept] at h
    obtain ⟨rfl, hcount⟩ := nOperations_recordAndWrite h
    exact ⟨fun hok => hnot (rcDelete_eq_ok.mp hok), hcount⟩

theorem Runs.represents (h : Runs host trace ctx)
    (hmeets : ∀ step ∈ trace, step.1.Meets host step.2.1) :
    Represents ctx (applied host trace) := by
  induction h with
  | create => exact represents_create
  | call fuel _ hfree hcall ih =>
    rw [applied_snoc]
    exact (ih fun step hstep => hmeets step (List.mem_append_left _ hstep)).run hfree
      (hmeets _ (List.mem_append_right _ List.mem_cons_self)) hcall

/-- The log lists the calls that returned `SQLITE_OK` after each call of a run, just if each call
but those that create a node is refused before it writes or succeeds. -/
theorem log_lists_applied_iff (h : Runs host trace ctx) :
    (∀ trace' ctx', trace' <+: trace → Runs host trace' ctx' →
      Represents ctx' (applied host trace')) ↔
      ∀ step ∈ trace, step.1.Meets host step.2.1 := by
  constructor
  · intro hlogs
    induction h with
    | create => exact fun step hstep => absurd hstep List.not_mem_nil
    | @call trace ctx ctx' c answers rc fuel hrun hfree hcall ih =>
      intro step hstep
      obtain hstep | hstep := List.mem_append.mp hstep
      · exact ih (fun trace' ctx' hle => hlogs trace' ctx' (hle.trans (List.prefix_append _ _)))
          step hstep
      · obtain rfl := List.mem_singleton.mp hstep
        by_contra hmeets
        obtain ⟨hrc, hcount⟩ := run_of_not_meets hmeets hcall
        have hbefore := (hlogs trace ctx (List.prefix_append _ _) hrun).nOperations_eq
        have hafter :=
          (hlogs _ ctx' (List.prefix_refl _) (.call fuel hrun hfree hcall)).nOperations_eq
        rw [applied_snoc, if_neg hrc, hcount, hbefore] at hafter
        omega
  · exact fun hmeets trace' ctx' hle hrun =>
      hrun.represents fun step hstep => hmeets step (hle.subset hstep)

def sampleAnswers (rcWrite : ResultCode) : Answers where
  nodeExists _ := true
  iNewId := 1
  rcBegin := .ok
  pWriteOp := 0
  zOldValue := none
  zOldLabels := none
  zRelationships := "[]".toList
  oldNode := none
  oldEdge := none
  rcWrite := rcWrite
  rcBind := .ok

def sampleRelationship : CreateRelOp where
  zFromVar := none
  zToVar := none
  zRelVar := none
  zRelType := "KNOWS".toList
  properties := []
  iFromNodeId := 1
  iToNodeId := 2
  seed := 1

def sampleContext (heap : Heap OpCell) : CypherWriteContext := ⟨heap, some 0, some 0, 1, false⟩

theorem sampleRelationship_fails : Runs sampleHost
    [(.createRelationship sampleRelationship, sampleAnswers .error, .error)]
    (sampleContext ((cypherWriteOpCreate cypherWriteContextCreate 0
      (createRelationshipRecord (sampleAnswers .error) sampleRelationship)).heap.free 0)) :=
  .call 0 .create rfl rfl

theorem sampleRelationship_succeeds : Runs sampleHost
    [(.createRelationship sampleRelationship, sampleAnswers .ok, .ok)]
    (sampleContext (cypherWriteOpCreate cypherWriteContextCreate 0
      (createRelationshipRecord (sampleAnswers .ok) sampleRelationship)).heap) :=
  .call 0 .create rfl rfl

theorem not_log_lists_applied_relationship :
    ¬∀ trace ctx, Runs sampleHost trace ctx → Represents ctx (applied sampleHost trace) := by
  intro hlogs
  have hcount := (hlogs _ _ sampleRelationship_fails).nOperations_eq
  exact absurd hcount (by decide)

theorem log_lists_applied_iff_relationship :
    Represents (sampleContext (cypherWriteOpCreate cypherWriteContextCreate 0
        (createRelationshipRecord (sampleAnswers .ok) sampleRelationship)).heap)
      (applied sampleHost [(.createRelationship sampleRelationship, sampleAnswers .ok, .ok)]) :=
  (log_lists_applied_iff sampleRelationship_succeeds).mpr (fun step hstep => by
    rw [List.mem_singleton.mp hstep]
    exact fun _ => ⟨rfl, fun _ => rfl⟩) _ _ (List.prefix_refl _) sampleRelationship_succeeds

end Runs

end SqliteMultimodal.Graph.WriteLog
