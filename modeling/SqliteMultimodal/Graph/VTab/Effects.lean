import SqliteMultimodal.Graph.VTab.Runs

namespace SqliteMultimodal.Graph.VTab

variable (conv : Conversions)

def Inserts (argv : List Value) (type : Text) : Prop :=
  argv.length ≥ 11 ∧ argv.getD 0 .null = .null ∧ argv.getD 1 .null = .null ∧
    (argv.getD 2 .null).toText conv = some type

instance decidableInserts (argv : List Value) (type : Text) : Decidable (Inserts conv argv type) :=
  inferInstanceAs (Decidable (_ ∧ _))

inductive Effect (store : Store) (draws : Nat → Int64) (argv : List Value) : Store → Prop
  | same : Effect store draws argv store
  | upsert (row : NodeRow) (hinsert : Inserts conv argv "node".toList)
      (hid : 0 < (argv.getD 3 .null).int64 conv) :
      Effect store draws argv
        { store with nodes := store.nodes.put ((argv.getD 3 .null).int64 conv).toInt row }
  | newNode (key : Int) (row : NodeRow) (hinsert : Inserts conv argv "node".toList)
      (hid : ¬ 0 < (argv.getD 3 .null).int64 conv) (hkey : newRowid store.nodes draws = some key) :
      Effect store draws argv { store with nodes := store.nodes.put key row }
  | newEdge (key : Int) (row : EdgeRow) (hinsert : Inserts conv argv "edge".toList)
      (hkey : newRowid store.edges draws = some key)
      (hfrom : store.nodes.get row.fromNode ≠ none) (hto : store.nodes.get row.toNode ≠ none) :
      Effect store draws argv { store with edges := store.edges.put key row }
  | modifyNode (id : Int) (f : NodeRow → NodeRow) (hargv : argv.length ≠ 1) :
      Effect store draws argv { store with nodes := store.nodes.modify id f }
  | deleteNode (hargv : argv.length = 1)
      (hnode : isEdge ((argv.getD 0 .null).int64 conv) = false) :
      Effect store draws argv
        { store with nodes := store.nodes.delete ((argv.getD 0 .null).int64 conv).toInt }
  | deleteEdge (hargv : argv.length = 1)
      (hedge : isEdge ((argv.getD 0 .null).int64 conv) = true) :
      Effect store draws argv { store with
        edges := store.edges.delete ((argv.getD 0 .null).int64 conv &&& ~~~edgeBit).toInt }

inductive Stepped (c : Config) : Action → Config → Prop
  | start (statement : Statement) (hframes : c.frames = []) :
      Stepped c (.start statement) { c with
        frames := [statement.calls conv c.store]
        statement := some statement
        saved := (c.store, c.log) }
  | finish (draws : Nat → Int64) (frames : List (List (List Value)))
      (hframes : c.frames = [] :: frames) : Stepped c (.call draws) { c with frames }
  | take (draws : Nat → Int64) (argv : List Value) (calls : List (List Value))
      (frames : List (List (List Value))) (hframes : c.frames = (argv :: calls) :: frames)
      (store : Store) (heffect : Effect conv c.store draws argv store) :
      Stepped c (.call draws) { c with
        store, log := ⟨argv, c.store, store⟩ :: c.log, frames := calls :: frames }
  | undo (draws : Nat → Int64) :
      Stepped c (.call draws) { c with store := c.saved.1, log := c.saved.2, frames := [] }
  | nest (draws : Nat → Int64) (argv : List Value) (calls : List (List Value))
      (frames : List (List (List Value))) (hframes : c.frames = (argv :: calls) :: frames)
      (nested : Nested) (hexec : graphUpdate conv c.store draws argv = .exec nested) :
      Stepped c (.call draws)
        { c with frames := nested.statement.calls conv c.store :: calls :: frames }

variable {conv} {store store' : Store} {draws : Nat → Int64} {argv : List Value}
  {rc : Code} {zErrMsg : Option Text} {pRowid : Option Int64}

theorem deleteRow_effect (hargv : argv.length = 1)
    (h : deleteRow store ((argv.getD 0 .null).int64 conv) = .done .ok zErrMsg pRowid store') :
    Effect conv store draws argv store' := by
  unfold deleteRow at h
  split at h
  next hedge =>
    cases h
    exact .deleteEdge hargv hedge
  next hnode =>
    cases h
    exact .deleteNode hargv (Bool.not_eq_true _ ▸ hnode)

theorem insertNode_effect (hinsert : Inserts conv argv "node".toList)
    (h : insertNode conv store draws argv = .done .ok zErrMsg pRowid store') :
    Effect conv store draws argv store' := by
  unfold insertNode at h
  simp only at h
  split at h
  next hid =>
    cases h
    exact .upsert _ hinsert hid
  next hid =>
    cases hkey : newRowid store.nodes draws with
    | none =>
      rw [hkey] at h
      cases h
    | some key =>
      rw [hkey] at h
      cases h
      exact .newNode key _ hinsert hid hkey

theorem insertEdge_effect (hinsert : Inserts conv argv "edge".toList)
    (h : insertEdge conv store draws argv = .done .ok zErrMsg pRowid store') :
    Effect conv store draws argv store' := by
  unfold insertEdge at h
  simp only at h
  split at h
  next hends =>
    cases hweight : (argv.getD 8 .null).double conv with
    | infinite _ =>
      rw [hweight] at h
      cases h
    | finite _ =>
      cases hkey : newRowid store.edges draws with
      | none =>
        rw [hweight, hkey] at h
        cases h
      | some key =>
        rw [hweight, hkey] at h
        cases h
        exact .newEdge key _ hinsert hkey hends.1 hends.2
  next => cases h

theorem updateRow_effect (hargv : argv.length ≠ 1)
    (h : updateRow conv store argv = .done .ok zErrMsg pRowid store') :
    Effect conv store draws argv store' := by
  unfold updateRow at h
  simp only at h
  split at h
  next => cases h
  next =>
    split at h
    next =>
      split at h
      next =>
        cases h
        exact .same
      next => split at h <;> cases h
    next =>
      split at h
      next =>
        cases h
        exact .same
      next =>
        cases h
        exact .modifyNode _ _ hargv

theorem graphUpdate_effect
    (h : graphUpdate conv store draws argv = .done .ok zErrMsg pRowid store') :
    Effect conv store draws argv store' := by
  unfold graphUpdate at h
  split at h
  next hargv => exact deleteRow_effect hargv h
  next hargv =>
    split at h
    next hnull =>
      split at h
      next type htype =>
        split at h
        next hnode => exact insertNode_effect ⟨hnull.1, hnull.2.1, hnull.2.2, hnode ▸ htype⟩ h
        next =>
          split at h
          next hedge => exact insertEdge_effect ⟨hnull.1, hnull.2.1, hnull.2.2, hedge ▸ htype⟩ h
          next => cases h
      next => cases h
    next =>
      split at h
      next => exact updateRow_effect hargv h
      next => cases h

theorem graphUpdate_edge (h : Inserts conv argv "edge".toList) :
    graphUpdate conv store draws argv = insertEdge conv store draws argv := by
  obtain ⟨hargv, h0, h1, h2⟩ := h
  rw [graphUpdate, if_neg (by omega), if_pos ⟨hargv, h0, h1⟩, h2]
  rfl

theorem step_stepped {c c' : Config} {a : Action} (h : step conv c a = some c') :
    Stepped conv c a c' := by
  cases a with
  | start statement =>
    simp only [step] at h
    split at h
    next hframes =>
      cases h
      exact .start statement hframes
    next => cases h
  | call draws =>
    simp only [step] at h
    split at h
    next => cases h
    next frames hframes =>
      cases h
      exact .finish draws frames hframes
    next argv calls frames hframes =>
      split at h
      next store hdone =>
        cases h
        exact .take draws argv calls frames hframes store (graphUpdate_effect hdone)
      next =>
        cases h
        exact .undo draws
      next nested hexec =>
        cases h
        exact .nest draws argv calls frames hframes nested hexec

theorem reached_history {P : Store → List Event → Prop} {ok : Config → Action → Prop} {c : Config}
    (h : Machine.Reached (step conv) ok .start c) (hempty : P .empty [])
    (hcall : ∀ c draws argv calls frames store', P c.store c.log → ok c (.call draws) →
      c.frames = (argv :: calls) :: frames → Effect conv c.store draws argv store' →
      P store' (⟨argv, c.store, store'⟩ :: c.log)) : P c.store c.log := by
  refine (h.invariant (P := fun c => P c.store c.log ∧ P c.saved.1 c.saved.2) ⟨hempty, hempty⟩
    fun c a c' hc hok hstep => ?_).1
  cases step_stepped hstep with
  | start => exact ⟨hc.1, hc.1⟩
  | finish => exact hc
  | take draws argv calls frames hframes store heffect =>
    exact ⟨hcall c draws argv calls frames store hc.1 hok hframes heffect, hc.2⟩
  | undo => exact ⟨hc.2, hc.2⟩
  | nest => exact hc

end SqliteMultimodal.Graph.VTab
