import SqliteMultimodal.Graph.Cypher.PropertyMap
import SqliteMultimodal.Lib.JsonValue

namespace SqliteMultimodal.Graph.Cypher

section Code

structure Buffer where
  text : Text
  nAlloc : Nat

def Buffer.add (b : Buffer) (piece : Text) : Buffer :=
  let nNeeded := b.text.length + piece.length
  ⟨b.text ++ piece, if nNeeded + 2 ≥ b.nAlloc then (nNeeded + 256) * 2 else b.nAlloc⟩

def Buffer.close (b : Buffer) (bracket : Char) : Text :=
  if b.text.length + 2 < b.nAlloc then b.text ++ [bracket] else b.text

def separated (first : Bool) (piece : Text) : Text := if first then piece else ',' :: piece

def addAll : Bool → List Text → Buffer → Buffer
  | _, [], b => b
  | first, piece :: pieces, b => addAll false pieces (b.add (separated first piece))

abbrev Row := List (Text × CypherValue)

variable (host : Host)

def columnText (column : Text × CypherValue) : Text :=
  '"' :: (column.1 ++ '"' :: ':' :: cypherValueToString host column.2)

def cypherResultToJson (row : Row) : Text :=
  (addAll true (row.map (columnText host)) ⟨['\x7b'], 256⟩).close '\x7d'

/-- What the root iterator gives: a code when it is opened, rows, and the code it stops with, `ok`
for `SQLITE_DONE`. -/
structure RootIterator where
  opened : ResultCode
  rows : List Row
  stopped : ResultCode

def resultNumber : ResultCode → Int
  | .ok => 0
  | .error => 1
  | .nomem => 7
  | .toobig => 18
  | .constraint => 19
  | .misuse => 21
  | .format => 24
  | .range => 25

structure Execution where
  rc : ResultCode
  zResults : Option Text
  zErrorMsg : Option Text

def maxResults : Nat := 10000

def executeRows (stopped : ResultCode) : List Row → Nat → Buffer → ResultCode × Option Text × Buffer
  | [], _, b =>
    if stopped = .ok then (.ok, none, b)
    else (stopped, some ("Iterator error: ".toList ++ Text.ofInt (resultNumber stopped)), b)
  | row :: rows, nResults, b =>
    let b := b.add (separated (nResults = 0) (cypherResultToJson host row))
    if nResults + 1 > maxResults then
      (.error, some "Result limit exceeded (10000 rows)".toList, b)
    else executeRows stopped rows (nResults + 1) b

def cypherExecutorExecute (pRootIterator : Option RootIterator) : Execution :=
  match pRootIterator with
  | none => ⟨.error, none, none⟩
  | some pRoot =>
    if pRoot.opened ≠ .ok then
      ⟨pRoot.opened, none, some "Failed to open root iterator".toList⟩
    else
      match executeRows host pRoot.stopped pRoot.rows 0 ⟨['['], 256⟩ with
      | (.ok, message, b) => ⟨.ok, some (b.close ']'), message⟩
      | (rc, message, _) => ⟨rc, none, message⟩

end Code

section Text

def Buffer.Roomy (b : Buffer) : Prop := b.text.length + 2 < b.nAlloc

theorem Buffer.roomy_add (b : Buffer) (piece : Text) : (b.add piece).Roomy := by
  simp only [Buffer.Roomy, Buffer.add, List.length_append]
  split <;> omega

theorem Buffer.close_of_roomy {b : Buffer} (h : b.Roomy) (bracket : Char) :
    b.close bracket = b.text ++ [bracket] := if_pos h

theorem addAll_spec (first : Bool) (pieces : List Text) {b : Buffer} (h : b.Roomy) :
    (addAll first pieces b).Roomy ∧ (addAll first pieces b).text = b.text ++
      if first then Text.join ',' pieces else pieces.flatMap (',' :: ·) := by
  induction pieces generalizing first b with
  | nil =>
    refine ⟨h, ?_⟩
    cases first <;> simp [addAll, Text.join]
  | cons piece pieces ih =>
    obtain ⟨hroomy, htext⟩ := ih false (b.roomy_add (separated first piece))
    refine ⟨hroomy, htext.trans ?_⟩
    cases first
    · simp [Buffer.add, separated]
    · simp [Buffer.add, separated, Text.join_cons_flatMap ',']

theorem cypherResultToJson_eq (host : Host) (row : Row) : cypherResultToJson host row =
    '\x7b' :: (Text.join ',' (row.map (columnText host)) ++ ['\x7d']) := by
  obtain ⟨hroomy, htext⟩ := addAll_spec true (row.map (columnText host))
    (b := ⟨['\x7b'], 256⟩) (show 1 + 2 < 256 by decide)
  rw [cypherResultToJson, Buffer.close_of_roomy hroomy, htext]
  rfl

theorem executeRows_eq (host : Host) {rows : List Row} {n : Nat}
    (h : n + rows.length ≤ maxResults) (b : Buffer) : executeRows host .ok rows n b =
      (.ok, none, addAll (n = 0) (rows.map (cypherResultToJson host)) b) := by
  induction rows generalizing n b with
  | nil => rfl
  | cons row rows ih =>
    rw [List.length_cons] at h
    rw [executeRows, if_neg (by omega), ih (by omega), List.map_cons, addAll]
    rfl

theorem cypherExecutorExecute_eq (host : Host) {rows : List Row} (h : rows.length ≤ maxResults) :
    cypherExecutorExecute host (some ⟨.ok, rows, .ok⟩) =
      ⟨.ok, some ('[' :: (Text.join ',' (rows.map (cypherResultToJson host)) ++ [']'])), none⟩ := by
  obtain ⟨hroomy, htext⟩ := addAll_spec true (rows.map (cypherResultToJson host))
    (b := ⟨['['], 256⟩) (show 1 + 2 < 256 by decide)
  have hrows := executeRows_eq host ((Nat.zero_add _).trans_le h) ⟨['['], 256⟩
  have hclose := Buffer.close_of_roomy hroomy ']'
  rw [htext] at hclose
  simp only [cypherExecutorExecute, hrows, ne_eq, not_true_eq_false, if_false, decide_true, hclose]
  rfl

end Text

section Recovery

def Shows : CypherValue → Json.Value → Prop
  | .null, x => x = .scalar .null
  | .boolean b, x => x = .scalar (.bool b)
  | .integer i, x => ∃ lexeme, x = .scalar (.number lexeme) ∧ Text.atoll lexeme = i
  | .string z, x => x = .scalar (.string (z.getD []))
  | .node _, _ => True
  | .relationship _, _ => True
  | .list _, _ => True
  | .map _, _ => True
  | .float _, _ => False
  | .path, _ => False

def RowShown (row : Row) (x : Json.Value) : Prop :=
  ∃ members, x = .object members ∧ List.Forall₂ (fun c m => m.1 = c.1 ∧ Shows c.2 m.2) row members

def Recovered (rows : List Row) (t : Text) : Prop :=
  ∃ objects, Json.parse t = some (.array objects) ∧ List.Forall₂ RowShown rows objects

def PlainValue : CypherValue → Prop
  | .null => True
  | .boolean _ => True
  | .integer _ => True
  | .string z => ∀ c ∈ z.getD [], Json.Plain c
  | _ => False

instance PlainValue.decidable : (v : CypherValue) → Decidable (PlainValue v)
  | .null | .boolean _ | .integer _ => isTrue trivial
  | .string z => List.decidableBAll Json.Plain (z.getD [])
  | .float _ | .node _ | .relationship _ | .path | .list _ | .map _ => isFalse id

def PlainColumn (column : Text × CypherValue) : Prop :=
  (∀ c ∈ column.1, Json.Plain c) ∧ PlainValue column.2

instance PlainColumn.decidable (column : Text × CypherValue) : Decidable (PlainColumn column) :=
  @instDecidableAnd _ _ (List.decidableBAll Json.Plain column.1) (PlainValue.decidable column.2)

variable (host : Host)

theorem toString_null : cypherValueToString host .null = ['n', 'u', 'l', 'l'] := rfl

theorem toString_boolean (b : Bool) : cypherValueToString host (.boolean b) = boolText b := by
  delta cypherValueToString
  exact Eq.refl (boolText b)

theorem toString_integer (i : Int) : cypherValueToString host (.integer i) = Text.ofInt i := by
  delta cypherValueToString
  exact Eq.refl (Text.ofInt i)

theorem toString_string (z : Option Text) :
    cypherValueToString host (.string z) = quoted (z.getD []) := by
  delta cypherValueToString
  exact Eq.refl (quoted (z.getD []))

theorem toString_node (i : Int) :
    cypherValueToString host (.node i) = 'N' :: ("ode(".toList ++ Text.ofInt i ++ [')']) := rfl

theorem toString_relationship (i : Int) : cypherValueToString host (.relationship i) =
    'R' :: ("elationship(".toList ++ Text.ofInt i ++ [')']) := rfl

theorem toString_list (values : List CypherValue) : cypherValueToString host (.list values) =
    '[' :: 'L' :: ("ist with ".toList ++ Text.ofInt values.length ++ " elements]".toList) := rfl

theorem toString_map (pairs : List (Text × CypherValue)) : cypherValueToString host (.map pairs) =
    '\x7b' :: 'M' :: ("ap with ".toList ++ Text.ofInt pairs.length ++ " pairs".toList ++ ['\x7d']) :=
  rfl

theorem value_eq_none {n : Nat} {c : Char} (hc : c = 'N' ∨ c = 'R' ∨ c = 'L' ∨ c = 'M') (t : Text) :
    Json.value n (c :: t) = none := by
  cases n with
  | zero => rfl
  | succ n =>
    have hscalar : Json.scalar (c :: t) = none := by
      obtain rfl | rfl | rfl | rfl := hc <;>
        exact Json.scalar_eq_none (by decide) (by decide) (by decide) (by decide) (by decide) rfl t
    rw [Json.value_scalar (by rintro rfl; simp at hc) (by rintro rfl; simp at hc), hscalar]
    rfl

theorem value_list {n : Nat} (t : Text) : Json.value n ('[' :: 'L' :: t) = none := by
  cases n with
  | zero => rfl
  | succ n =>
    have hvalue := value_eq_none (n := n) (c := 'L') (by simp) t
    have hskip : Json.skip ('L' :: t) = 'L' :: t := Json.skip_cons rfl t
    rw [Json.value_array, Json.container, if_pos rfl, hskip, if_neg (by simp), List.length_cons,
      Json.items, hskip, hvalue]
    rfl

theorem value_map {n : Nat} (t : Text) : Json.value n ('\x7b' :: 'M' :: t) = none := by
  cases n with
  | zero => rfl
  | succ n =>
    have hskip : Json.skip ('M' :: t) = 'M' :: t := Json.skip_cons rfl t
    rw [Json.value_object, Json.container, if_pos rfl, hskip, if_neg (by simp), List.length_cons,
      Json.items, hskip]
    rfl

theorem value_null {n : Nat} (t : Text) :
    Json.value (n + 1) (Json.skip (['n', 'u', 'l', 'l'] ++ t)) = some (.scalar .null, t) := rfl

theorem value_bool {n : Nat} (b : Bool) (t : Text) :
    Json.value (n + 1) (Json.skip (boolText b ++ t)) = some (.scalar (.bool b), t) := by
  cases b with
  | true => rfl
  | false => rfl

theorem value_string {n : Nat} (z t : Text) :
    Json.value (n + 1) (Json.skip (quoted z ++ t)) =
      (Json.scan none .plain (z ++ '"' :: t)).map fun r => (.scalar (.string r.1), r.2) := by
  rw [quoted, List.cons_append, List.cons_append, List.append_assoc, Json.skip_cons rfl,
    Json.value_quote]
  rfl

theorem value_of_plain {n : Nat} {v : CypherValue} {t : Text} (ht : Json.EndsItem '\x7d' t)
    (hgood : PlainValue v) :
    ∃ x, Json.value (n + 1) (Json.skip (cypherValueToString host v ++ t)) = some (x, t) ∧
      Shows v x := by
  cases v with
  | null =>
    rw [toString_null]
    exact ⟨.scalar .null, value_null t, rfl⟩
  | boolean b =>
    rw [toString_boolean]
    exact ⟨.scalar (.bool b), value_bool b t, rfl⟩
  | integer i =>
    refine ⟨.scalar (.number (Text.ofInt i)), ?_, _, rfl, Text.atoll_ofInt i⟩
    rw [toString_integer, (Json.printsNumber_ofInt i).skip]
    exact (Json.printsNumber_ofInt i).value _ (.of_ends (.inr rfl) ht)
  | string z =>
    refine ⟨.scalar (.string (z.getD [])), ?_, rfl⟩
    rw [toString_string, value_string, Json.scan_plain hgood]
    rfl
  | float r => exact hgood.elim
  | node i => exact hgood.elim
  | relationship i => exact hgood.elim
  | path => exact hgood.elim
  | list values => exact hgood.elim
  | map pairs => exact hgood.elim

theorem plain_of_value {n : Nat} {v : CypherValue} {x : Json.Value} {t u : Text}
    (ht : Json.EndsItem '\x7d' t)
    (hread : Json.value (n + 1) (Json.skip (cypherValueToString host v ++ t)) = some (x, u))
    (hshows : Shows v x) : PlainValue v ∧ u = t := by
  cases v with
  | null =>
    rw [toString_null, value_null] at hread
    exact ⟨trivial, (Prod.mk.inj (Option.some.inj hread)).2.symm⟩
  | boolean b =>
    rw [toString_boolean, value_bool] at hread
    exact ⟨trivial, (Prod.mk.inj (Option.some.inj hread)).2.symm⟩
  | integer i =>
    rw [toString_integer, (Json.printsNumber_ofInt i).skip,
      (Json.printsNumber_ofInt i).value _ (.of_ends (.inr rfl) ht)] at hread
    exact ⟨trivial, (Prod.mk.inj (Option.some.inj hread)).2.symm⟩
  | float r => exact hshows.elim
  | string z =>
    rw [toString_string, value_string] at hread
    obtain ⟨⟨w, u'⟩, hscan, heq⟩ := Option.map_eq_some_iff.mp hread
    obtain ⟨rfl, rfl⟩ := Prod.mk.inj heq
    have hw : w = z.getD [] := by
      simpa [Shows] using hshows
    subst hw
    exact Json.plain_of_scan hscan
  | node i =>
    rw [toString_node, List.cons_append, Json.skip_cons rfl, value_eq_none (.inl rfl)] at hread
    cases hread
  | relationship i =>
    rw [toString_relationship, List.cons_append, Json.skip_cons rfl,
      value_eq_none (.inr (.inl rfl))] at hread
    cases hread
  | path => exact hshows.elim
  | list values =>
    rw [toString_list, List.cons_append, List.cons_append, Json.skip_cons rfl, value_list] at hread
    cases hread
  | map pairs =>
    rw [toString_map, List.cons_append, List.cons_append, Json.skip_cons rfl, value_map] at hread
    cases hread

theorem readsBack_value (n : Nat) : Json.ReadsBack (Json.value (n + 1)) (cypherValueToString host)
    Shows PlainValue (Json.EndsItem '\x7d') :=
  ⟨value_of_plain host, plain_of_value host⟩

theorem readsBack_row (n : Nat) : Json.ReadsBack (Json.value (n + 2)) (cypherResultToJson host)
    RowShown (fun row => ∀ c ∈ row, PlainColumn c) fun _ => True := by
  have h := (readsBack_value host n).member.container '\x7b' (by decide) rfl rfl
    fun x t => ⟨'"', _, rfl, rfl, by decide⟩
  refine ⟨fun {row t} ht hgood => ?_, fun {row t x u} ht hread hshown => ?_⟩
  · obtain ⟨members, hread, hmembers⟩ := h.read (t := t) ht hgood
    refine ⟨.object members, ?_, members, rfl, hmembers⟩
    rw [List.cons_append, Json.skip_cons rfl] at hread
    rw [cypherResultToJson_eq, List.cons_append, Json.skip_cons rfl, Json.value_object]
    exact congrArg (Option.map _) hread
  · obtain ⟨members, rfl, hmembers⟩ := hshown
    rw [cypherResultToJson_eq, List.cons_append, Json.skip_cons rfl, Json.value_object] at hread
    obtain ⟨⟨members', u'⟩, hcontainer, heq⟩ := Option.map_eq_some_iff.mp hread
    obtain ⟨hobject, rfl⟩ := Prod.mk.inj heq
    obtain rfl := Json.Value.object.inj hobject
    refine h.good (t := t) ht ?_ hmembers
    rw [List.cons_append, Json.skip_cons rfl]
    exact hcontainer

theorem readsBack_rows (n : Nat) :
    Json.ReadsBack (Json.container '[' ']' (Json.value (n + 2)))
      (fun rows => '[' :: (Text.join ',' (rows.map (cypherResultToJson host)) ++ [']']))
      (List.Forall₂ RowShown) (fun rows => ∀ row ∈ rows, ∀ c ∈ row, PlainColumn c) fun _ => True := by
  have h := readsBack_row host n
  have hitem : Json.ReadsBack (Json.value (n + 2)) (cypherResultToJson host) RowShown
      (fun row => ∀ c ∈ row, PlainColumn c) (Json.EndsItem ']') :=
    ⟨fun _ hgood => h.read trivial hgood, fun _ hread hR => h.good trivial hread hR⟩
  refine hitem.container '[' (by decide) rfl rfl fun row t => ?_
  rw [cypherResultToJson_eq]
  exact ⟨'\x7b', _, rfl, rfl, by decide⟩

/-- The names and the values of the columns can be read out of the answer if and only if there is
none that JSON would have written in another way. -/
theorem cypherExecutorExecute_recovered {rows : List Row} (h : rows.length ≤ maxResults) :
    (∃ t, (cypherExecutorExecute host (some ⟨.ok, rows, .ok⟩)).rc = .ok ∧
        (cypherExecutorExecute host (some ⟨.ok, rows, .ok⟩)).zResults = some t ∧ Recovered rows t) ↔
      ∀ row ∈ rows, ∀ c ∈ row, PlainColumn c := by
  rw [cypherExecutorExecute_eq host h]
  set text := '[' :: (Text.join ',' (rows.map (cypherResultToJson host)) ++ [']']) with htext
  obtain ⟨n, hn⟩ : ∃ n, text.length + 1 = n + 2 + 1 :=
    ⟨text.length - 2, by simp only [htext, List.length_cons, List.length_append]; omega⟩
  have hrows := readsBack_rows host n
  have hskip : Json.skip (text ++ []) = text := by rw [List.append_nil, htext, Json.skip_cons rfl]
  have hvalue : Json.value (text.length + 1) (Json.skip text) =
      (Json.container '[' ']' (Json.value (n + 2)) text).map fun r => (.array r.1, r.2) := by
    rw [hn, htext, Json.skip_cons rfl, Json.value_array]
  constructor
  · rintro ⟨t, -, ht, objects, hparse, hall⟩
    obtain rfl := Option.some.inj ht
    rw [Json.parse, Json.whole, hvalue] at hparse
    obtain ⟨⟨x, rest⟩, hread, heq⟩ := Option.bind_eq_some_iff.mp hparse
    obtain ⟨⟨objects', rest'⟩, hcontainer, hx⟩ := Option.map_eq_some_iff.mp hread
    obtain ⟨rfl, rfl⟩ := Prod.mk.inj hx
    have hobjects : objects' = objects := by
      dsimp only at heq
      split at heq
      next => exact Json.Value.array.inj (Option.some.inj heq)
      next => cases heq
    subst hobjects
    exact (hrows.good (t := []) trivial (hskip.symm ▸ hcontainer) hall).1
  · intro hgood
    obtain ⟨objects, hread, hall⟩ := hrows.read (t := []) trivial hgood
    refine ⟨text, rfl, rfl, objects, ?_, hall⟩
    rw [Json.parse, Json.whole, hvalue, ← hskip, hread]
    rfl

end Recovery

section Sample

def personRows : List Row := [person, [("name".toList, .string "Eve".toList)]]

theorem personRows_recovered : ∃ t,
    (cypherExecutorExecute plainHost (some ⟨.ok, personRows, .ok⟩)).rc = .ok ∧
      (cypherExecutorExecute plainHost (some ⟨.ok, personRows, .ok⟩)).zResults = some t ∧
      Recovered personRows t :=
  (cypherExecutorExecute_recovered plainHost (by decide)).mpr (by decide +kernel)

def quoteRows : List Row := [[("s".toList, .string (some ['"']))]]

theorem quote_not_recovered : ¬ ∃ t,
    (cypherExecutorExecute plainHost (some ⟨.ok, quoteRows, .ok⟩)).rc = .ok ∧
      (cypherExecutorExecute plainHost (some ⟨.ok, quoteRows, .ok⟩)).zResults = some t ∧
      Recovered quoteRows t := by
  rintro ⟨t, -, ht, objects, hparse, -⟩
  have htext : (cypherExecutorExecute plainHost (some ⟨.ok, quoteRows, .ok⟩)).zResults =
      some "[\x7b\"s\":\"\"\"\x7d]".toList := by decide +kernel
  obtain rfl := Option.some.inj (htext.symm.trans ht)
  have hnone : (Json.parse "[\x7b\"s\":\"\"\"\x7d]".toList).isNone = true := by decide +kernel
  rw [hparse] at hnone
  cases hnone

end Sample

end SqliteMultimodal.Graph.Cypher
