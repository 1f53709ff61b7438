/-
  TokenGrammar.Proofs.Grammar.Inserts

  Rule tables as stores.  A table is filled by inserting rules one after the other, and the
  insert of a name that is taken is refused.  After any inserts the rules of the table are
  those inserted first under their names, in the order in which they came
  (`RuleTable.rules_ofInserts`), and all that can be asked of a table follows from that
  (`RuleTable.lists_view`).

  A table can be kept in two parts as well: the elements and spans of the rules in a row, and
  a one-to-one map between names and places in that row.  The two parts stay in step with a
  table whatever is inserted and refused (`IndexedTable.InStep.insert`), so nobody can tell
  the two apart (`IndexedTable.InStep.view_eq`).

  Main statement: `RuleTable.inserts_are_kept_in_order`.
-/

import Mathlib.Data.Finset.Card
import Mathlib.Data.PEquiv
import Mathlib.Data.Set.Function
import TokenGrammar.Grammar.RuleTable

namespace TokenGrammar

-- ============================================================================
-- What can be asked of a table
-- ============================================================================

namespace RuleTable

/-- All that a table answers. -/
structure View where
  size : Nat
  isEmpty : Bool
  contains : String → Bool
  id? : String → Option RuleId
  nodes? : String → Option (List Node)
  nameOf : RuleId → String
  nodesAt? : RuleId → Option (List Node)
  spanAt? : RuleId → Option Span
  /-- The names and the elements of all rules. -/
  listed : List (String × List Node)

/-- All that a table answers. -/
def view (table : RuleTable) : View where
  size := table.size
  isEmpty := table.size == 0
  contains := table.contains
  id? := table.id?
  nodes? := table.nodes?
  nameOf := table.nameOf
  nodesAt? id := (table.rule? id).map Rule.nodes
  spanAt? id := (table.rule? id).map Rule.span
  listed := table.rules.map fun rule => (rule.name, rule.nodes)

/-- What an insert answers, and the table behind it.  A refused insert leaves the table as
    it is. -/
def inserted (table : RuleTable) (rule : Rule) : Except RuleId RuleId × RuleTable :=
  match table.insert rule with
  | .error id => (.error id, table)
  | .ok (id, more) => (.ok id, more)

/-- The table that comes of some inserts, one after the other. -/
def ofInserts (inserts : List Rule) : RuleTable :=
  inserts.foldl (fun table rule => (table.inserted rule).2) empty

/-- Those of some inserts that come before all others of their names. -/
def firstInserts (inserts : List Rule) : List Rule :=
  (inserts.zipIdx.filter fun placed =>
    (inserts.take placed.2).all (·.name != placed.1.name)).map Prod.fst

/-- What a table answers that keeps the first insert of each name, in the order of these. -/
structure View.Lists (view : View) (inserts : List Rule) : Prop where
  size_eq : view.size = (inserts.map Rule.name).toFinset.card
  isEmpty_iff : view.isEmpty = true ↔ inserts = []
  /-- The names stand one to one for the places below the size. -/
  bijOn_nameOf : Set.BijOn view.nameOf {id | id.index < view.size}
    {name | name ∈ inserts.map Rule.name}
  id?_eq_some_iff (name : String) (id : RuleId) :
    view.id? name = some id ↔ id.index < view.size ∧ view.nameOf id = name
  contains_iff (name : String) : view.contains name = true ↔ name ∈ inserts.map Rule.name
  nodes?_eq (name : String) :
    view.nodes? name = (inserts.find? (·.name == name)).map Rule.nodes
  nodesAt?_eq (name : String) :
    (view.id? name).bind view.nodesAt? = (inserts.find? (·.name == name)).map Rule.nodes
  spanAt?_eq (name : String) :
    (view.id? name).bind view.spanAt? = (inserts.find? (·.name == name)).map Rule.span
  listed_eq : view.listed = (firstInserts inserts).map fun rule => (rule.name, rule.nodes)

-- ============================================================================
-- Names and places
-- ============================================================================

variable {table : RuleTable}

/-- The rule at the place of a name is the rule that has the name. -/
theorem bind_rule? (table : RuleTable) (name : String) :
    (table.id? name).bind table.rule? = table.find? name := by
  rw [id?, find?, List.find?_eq_bind_findIdx?_getElem?, Option.bind_map]
  rfl

theorem bind_map_rule? {β : Type} (table : RuleTable) (name : String) (f : Rule → β) :
    (table.id? name).bind (fun id => (table.rule? id).map f) = (table.find? name).map f := by
  rw [← bind_rule?, Option.map_bind]
  rfl

/-- Names are distinct, so the place of a name is the only one where it stands. -/
theorem id?_eq_some_iff_rule? {name : String} {id : RuleId} :
    table.id? name = some id ↔ ∃ rule, table.rule? id = some rule ∧ rule.name = name := by
  obtain ⟨index⟩ := id
  have hplace : table.id? name = some ⟨index⟩ ↔
      table.rules.findIdx? (·.name == name) = some index := by
    simp [id?]
  rw [hplace, List.findIdx?_eq_some_iff_getElem]
  constructor
  · rintro ⟨hlt, hname, -⟩
    exact ⟨table.rules[index], List.getElem?_eq_getElem hlt, beq_iff_eq.1 hname⟩
  · rintro ⟨rule, hrule, rfl⟩
    obtain ⟨hlt, rfl⟩ := List.getElem?_eq_some_iff.1 hrule
    refine ⟨hlt, beq_self_eq_true _, fun earlier hearlier => ?_⟩
    -- An earlier rule of the same name would be the same rule.
    intro hsame
    have hlength : index < (table.rules.map Rule.name).length := by
      simpa using hlt
    have hnames : (table.rules.map Rule.name)[earlier] = (table.rules.map Rule.name)[index] := by
      rw [List.getElem_map, List.getElem_map]
      exact beq_iff_eq.1 hsame
    have hplaces := (List.Nodup.getElem_inj_iff table.nodup_names).1 hnames
    omega

theorem rule?_eq_some_of_lt {id : RuleId} (h : id.index < table.size) :
    ∃ rule, table.rule? id = some rule :=
  ⟨_, List.getElem?_eq_getElem h⟩

theorem index_lt_of_rule? {id : RuleId} {rule : Rule} (h : table.rule? id = some rule) :
    id.index < table.size :=
  (List.getElem?_eq_some_iff.1 h).1

theorem nameOf_of_rule? {id : RuleId} {rule : Rule} (h : table.rule? id = some rule) :
    table.nameOf id = rule.name := by
  rw [nameOf, h, Option.map_some, Option.getD_some]

/-- A name has a place if that is one of the places of the table, and the name stands there. -/
theorem id?_eq_some_iff {name : String} {id : RuleId} :
    table.id? name = some id ↔ id.index < table.size ∧ table.nameOf id = name := by
  rw [id?_eq_some_iff_rule?]
  constructor
  · rintro ⟨rule, hrule, rfl⟩
    exact ⟨index_lt_of_rule? hrule, nameOf_of_rule? hrule⟩
  · rintro ⟨hlt, rfl⟩
    obtain ⟨rule, hrule⟩ := rule?_eq_some_of_lt hlt
    exact ⟨rule, hrule, (nameOf_of_rule? hrule).symm⟩

theorem exists_id?_iff {name : String} : (∃ id, table.id? name = some id) ↔ name ∈ table.names := by
  rw [← Option.isSome_iff_exists, ← Option.ne_none_iff_isSome, Ne, id?_eq_none_iff, not_not]

theorem contains_iff {name : String} : table.contains name = true ↔ name ∈ table.names := by
  simp [contains, names]

/-- The names of a table stand one to one for its places. -/
theorem bijOn_nameOf (table : RuleTable) :
    Set.BijOn table.nameOf {id | id.index < table.size} {name | name ∈ table.names} := by
  refine ⟨fun id hid => ?_, fun id hid other hother hname => ?_, fun name hname => ?_⟩
  · exact exists_id?_iff.1 ⟨id, id?_eq_some_iff.2 ⟨hid, rfl⟩⟩
  · have hplace := id?_eq_some_iff.2 ⟨hid, hname⟩
    rw [id?_eq_some_iff.2 ⟨hother, rfl⟩] at hplace
    exact (Option.some.inj hplace).symm
  · obtain ⟨id, hid⟩ := exists_id?_iff.2 hname
    exact ⟨id, id?_eq_some_iff.1 hid⟩

-- ============================================================================
-- One insert
-- ============================================================================

/-- An insert of a name that is taken is refused with the place of the rule that has it. -/
theorem insert_of_id? {rule : Rule} {id : RuleId} (h : table.id? rule.name = some id) :
    table.insert rule = .error id := by
  unfold insert
  split
  · next other hother =>
    rw [h] at hother
    rw [Option.some.inj hother]
  · next hnone =>
    rw [h] at hnone
    cases hnone

/-- A rule of another name takes the place behind all others. -/
theorem insert_of_fresh {rule : Rule} (h : table.id? rule.name = none) :
    table.insert rule = .ok (⟨table.size⟩, ⟨table.rules ++ [rule], nodup_names_append h⟩) := by
  unfold insert
  split
  · next id hid =>
    rw [h] at hid
    cases hid
  · rfl

/-- One more rule leaves all other names where they are. -/
theorem id?_of_rules_eq {more : RuleTable} {rule : Rule} (h : more.rules = table.rules ++ [rule])
    (name : String) :
    more.id? name = if name = rule.name then some ⟨table.size⟩ else table.id? name := by
  split
  · next hname =>
    subst hname
    refine id?_eq_some_iff_rule?.2 ⟨rule, ?_, rfl⟩
    rw [rule?, h, size, List.getElem?_concat_length]
  · next hname =>
    rw [id?, h, List.findIdx?_append, List.findIdx?_singleton, if_neg (by simpa using Ne.symm hname),
      Option.map_none, Option.or_none, id?]

theorem inserted_of_id? {rule : Rule} {id : RuleId} (h : table.id? rule.name = some id) :
    table.inserted rule = (.error id, table) := by
  rw [inserted, insert_of_id? h]

theorem inserted_of_fresh {rule : Rule} (h : table.id? rule.name = none) :
    (table.inserted rule).1 = .ok ⟨table.size⟩ ∧
      (table.inserted rule).2.rules = table.rules ++ [rule] := by
  rw [inserted, insert_of_fresh h]
  exact ⟨rfl, rfl⟩

-- ============================================================================
-- All inserts
-- ============================================================================

section

variable {inserts : List Rule} {rule : Rule}

theorem ofInserts_concat (inserts : List Rule) (rule : Rule) :
    ofInserts (inserts ++ [rule]) = ((ofInserts inserts).inserted rule).2 := by
  rw [ofInserts, List.foldl_append]
  rfl

/-- Another insert is a first one if none of those before it has its name. -/
theorem firstInserts_concat (inserts : List Rule) (rule : Rule) :
    firstInserts (inserts ++ [rule]) =
      firstInserts inserts ++ if rule.name ∈ inserts.map Rule.name then [] else [rule] := by
  have hbefore : (inserts.zipIdx.filter fun placed =>
        ((inserts ++ [rule]).take placed.2).all (·.name != placed.1.name)) =
      inserts.zipIdx.filter fun placed =>
        (inserts.take placed.2).all (·.name != placed.1.name) := by
    refine List.filter_congr fun placed hmem => ?_
    have hlt : placed.2 < inserts.length := by
      simpa using (List.mem_zipIdx hmem).2.1
    rw [List.take_append_of_le_length hlt.le]
  have hlast : ((inserts ++ [rule]).take inserts.length).all (·.name != rule.name) = true ↔
      rule.name ∉ inserts.map Rule.name := by
    simp
  rw [firstInserts, List.zipIdx_append, List.filter_append, hbefore, List.map_append]
  congr 1
  rw [Nat.zero_add, List.zipIdx_singleton, List.filter_singleton]
  by_cases hmem : rule.name ∈ inserts.map Rule.name
  · rw [if_pos hmem, Bool.eq_false_iff.2 fun h => hlast.1 h hmem]
    rfl
  · rw [if_neg hmem, hlast.2 hmem]
    rfl

theorem mem_names_firstInserts {name : String} :
    name ∈ (firstInserts inserts).map Rule.name ↔ name ∈ inserts.map Rule.name := by
  induction inserts using List.reverseRecOn with
  | nil => rfl
  | append_singleton inserts rule ih =>
      rw [firstInserts_concat, List.map_append, List.mem_append, ih, List.map_append,
        List.mem_append]
      split
      · next hmem =>
        simp only [List.map_nil, List.not_mem_nil, or_false, List.map_cons, List.mem_singleton]
        exact (or_iff_left_of_imp fun hname => hname ▸ hmem).symm
      · rfl

/-- The first insert of a name is a first one. -/
theorem find?_firstInserts (inserts : List Rule) (name : String) :
    (firstInserts inserts).find? (·.name == name) = inserts.find? (·.name == name) := by
  induction inserts using List.reverseRecOn with
  | nil => rfl
  | append_singleton inserts rule ih =>
      rw [firstInserts_concat, List.find?_append, ih, List.find?_append]
      split
      · next hmem =>
        -- A repeated name is found before its repetition, another one is not found in it.
        by_cases hname : rule.name = name
        · obtain ⟨earlier, hearlier, hsame⟩ := List.mem_map.1 hmem
          have hfound : (inserts.find? (·.name == name)).isSome := by
            rw [List.find?_isSome]
            exact ⟨earlier, hearlier, beq_iff_eq.2 (hsame.trans hname)⟩
          obtain ⟨found, hfound⟩ := Option.isSome_iff_exists.1 hfound
          rw [hfound, Option.some_or, Option.some_or]
        · rw [List.find?_singleton, if_neg (by simpa using hname), List.find?_nil]
      · rfl

/-- After some inserts the table has the first insert of each name, in their order. -/
theorem rules_ofInserts (inserts : List Rule) : (ofInserts inserts).rules = firstInserts inserts := by
  induction inserts using List.reverseRecOn with
  | nil => rfl
  | append_singleton inserts rule ih =>
      have hnames : (ofInserts inserts).names = (firstInserts inserts).map Rule.name := by
        rw [names, ih]
      rw [ofInserts_concat, firstInserts_concat]
      by_cases hmem : rule.name ∈ inserts.map Rule.name
      · obtain ⟨id, hid⟩ := exists_id?_iff.2 (hnames ▸ mem_names_firstInserts.2 hmem)
        rw [inserted_of_id? hid, if_pos hmem, List.append_nil, ih]
      · have hnone : (ofInserts inserts).id? rule.name = none :=
          id?_eq_none_iff.2 fun h => hmem (mem_names_firstInserts.1 (hnames ▸ h))
        rw [(inserted_of_fresh hnone).2, if_neg hmem, ih]

theorem mem_names_ofInserts {name : String} :
    name ∈ (ofInserts inserts).names ↔ name ∈ inserts.map Rule.name := by
  rw [names, rules_ofInserts, mem_names_firstInserts]

/-- A table has as many rules as names were inserted. -/
theorem size_ofInserts (inserts : List Rule) :
    (ofInserts inserts).size = (inserts.map Rule.name).toFinset.card := by
  have hsame : (ofInserts inserts).names.toFinset = (inserts.map Rule.name).toFinset := by
    ext name
    rw [List.mem_toFinset, List.mem_toFinset, mem_names_ofInserts]
  have hnodup : (ofInserts inserts).names.Nodup := (ofInserts inserts).nodup_names
  rw [← hsame, List.toFinset_card_of_nodup hnodup, names, List.length_map]
  rfl

theorem find?_ofInserts (inserts : List Rule) (name : String) :
    (ofInserts inserts).find? name = inserts.find? (·.name == name) := by
  rw [find?, rules_ofInserts, find?_firstInserts]

/-- Whatever a table is asked after some inserts, it answers for the first insert of each
    name. -/
theorem lists_view (inserts : List Rule) : (ofInserts inserts).view.Lists inserts where
  size_eq := size_ofInserts inserts
  isEmpty_iff := by
    have hsize := size_ofInserts inserts
    rw [view, beq_iff_eq, hsize, Finset.card_eq_zero, List.toFinset_eq_empty_iff,
      List.map_eq_nil_iff]
  bijOn_nameOf := by
    have hnames : {name | name ∈ inserts.map Rule.name} =
        {name | name ∈ (ofInserts inserts).names} :=
      Set.ext fun name => mem_names_ofInserts.symm
    rw [hnames]
    exact bijOn_nameOf _
  id?_eq_some_iff _ _ := id?_eq_some_iff
  contains_iff _ := contains_iff.trans mem_names_ofInserts
  nodes?_eq name := congrArg (Option.map Rule.nodes) (find?_ofInserts inserts name)
  nodesAt?_eq name := (bind_map_rule? _ name Rule.nodes).trans (by rw [find?_ofInserts])
  spanAt?_eq name := (bind_map_rule? _ name Rule.span).trans (by rw [find?_ofInserts])
  listed_eq := by
    rw [view, rules_ofInserts]

end

end RuleTable

-- ============================================================================
-- Tables in two parts
-- ============================================================================

/-- Maps that can be looked up from both sides. -/
structure PairMap (α β : Type) where
  Map : Type
  empty : Map
  insert : Map → α → β → Map
  right? : Map → α → Option β
  left? : Map → β → Option α

/-- Whether the pairs of such maps are one to one, because another pair takes the place of all
    those that it conflicts with. -/
structure PairMap.IsOneToOne {α β : Type} (pairs : PairMap α β) : Prop where
  right?_eq_some_iff (map : pairs.Map) (a : α) (b : β) :
    pairs.right? map a = some b ↔ pairs.left? map b = some a
  right?_empty (a : α) : pairs.right? pairs.empty a = none
  right?_insert (map : pairs.Map) (a x : α) (b y : β) :
    pairs.right? (pairs.insert map a b) x = some y ↔
      x = a ∧ y = b ∨ x ≠ a ∧ y ≠ b ∧ pairs.right? map x = some y

/-- A rule table in two parts: a map between names and places, and the elements and spans of
    the rules at these places. -/
structure IndexedTable (pairs : PairMap String RuleId) where
  names : pairs.Map
  rules : List (List Node × Span)

namespace IndexedTable

variable {pairs : PairMap String RuleId}

/-- A table without rules. -/
def empty (pairs : PairMap String RuleId) : IndexedTable pairs := ⟨pairs.empty, []⟩

/-- What an insert answers, and the table behind it. -/
def insert (table : IndexedTable pairs) (rule : Rule) :
    Except RuleId RuleId × IndexedTable pairs :=
  match pairs.right? table.names rule.name with
  | some id => (.error id, table)
  | none =>
    let id : RuleId := ⟨table.rules.length⟩
    (.ok id, ⟨pairs.insert table.names rule.name id, table.rules ++ [(rule.nodes, rule.span)]⟩)

/-- The table that comes of some inserts, one after the other. -/
def ofInserts (pairs : PairMap String RuleId) (inserts : List Rule) : IndexedTable pairs :=
  inserts.foldl (fun table rule => (table.insert rule).2) (empty pairs)

/-- The name at a place. -/
def nameOf (table : IndexedTable pairs) (id : RuleId) : String :=
  (pairs.left? table.names id).getD "<unknown>"

/-- The elements at a place. -/
def nodesAt? (table : IndexedTable pairs) (id : RuleId) : Option (List Node) :=
  table.rules[id.index]?.map Prod.fst

/-- All that a table answers. -/
def view (table : IndexedTable pairs) : RuleTable.View where
  size := table.rules.length
  isEmpty := table.rules.isEmpty
  contains name := (pairs.right? table.names name).isSome
  id? name := pairs.right? table.names name
  nodes? name := (pairs.right? table.names name).bind table.nodesAt?
  nameOf := table.nameOf
  nodesAt? := table.nodesAt?
  spanAt? id := table.rules[id.index]?.map Prod.snd
  listed := table.rules.zipIdx.map fun (rule, index) => (table.nameOf ⟨index⟩, rule.1)

/-- Whether the two parts say what a table says. -/
structure InStep (indexed : IndexedTable pairs) (table : RuleTable) : Prop where
  rules_eq : indexed.rules = table.rules.map fun rule => (rule.nodes, rule.span)
  right?_eq (name : String) : pairs.right? indexed.names name = table.id? name

variable {indexed : IndexedTable pairs} {table : RuleTable}

theorem inStep_empty (h : pairs.IsOneToOne) : (empty pairs).InStep .empty :=
  ⟨rfl, h.right?_empty⟩

theorem InStep.length_eq (h : indexed.InStep table) : indexed.rules.length = table.size := by
  rw [h.rules_eq, List.length_map]
  rfl

theorem InStep.getElem?_eq (h : indexed.InStep table) (id : RuleId) :
    indexed.rules[id.index]? = (table.rule? id).map fun rule => (rule.nodes, rule.span) := by
  rw [h.rules_eq, List.getElem?_map]
  rfl

/-- The two parts refuse what the table refuses, and stay as they are then. -/
theorem InStep.insert_of_id? (h : indexed.InStep table) {rule : Rule} {id : RuleId}
    (hid : table.id? rule.name = some id) : indexed.insert rule = (.error id, indexed) := by
  rw [IndexedTable.insert, h.right?_eq, hid]

/-- A rule of another name is registered for the place that it is pushed to. -/
theorem InStep.insert_of_fresh (h : indexed.InStep table) {rule : Rule}
    (hnone : table.id? rule.name = none) :
    indexed.insert rule = (.ok ⟨table.size⟩,
      ⟨pairs.insert indexed.names rule.name ⟨table.size⟩,
        indexed.rules ++ [(rule.nodes, rule.span)]⟩) := by
  rw [IndexedTable.insert, h.right?_eq, hnone, ← h.length_eq]

/-- Whatever is inserted or refused, the two parts stay in step with the table. -/
theorem InStep.insert (hpairs : pairs.IsOneToOne) (h : indexed.InStep table) (rule : Rule) :
    (indexed.insert rule).2.InStep (table.inserted rule).2 := by
  rcases hid : table.id? rule.name with _ | id
  · have hrules := (RuleTable.inserted_of_fresh hid).2
    rw [h.insert_of_fresh hid]
    refine ⟨?_, fun name => Option.ext fun id => ?_⟩
    · rw [hrules, List.map_append, ← h.rules_eq]
      rfl
    · rw [hpairs.right?_insert, h.right?_eq, RuleTable.id?_of_rules_eq hrules]
      by_cases hname : name = rule.name
      · simp [hname, eq_comm]
      · -- The place behind all others has been nobody's.
        have hne : table.id? name = some id → id ≠ ⟨table.size⟩ := by
          rintro hplace rfl
          exact Nat.lt_irrefl _ (RuleTable.id?_eq_some_iff.1 hplace).1
        rw [if_neg hname]
        tauto
  · rw [h.insert_of_id? hid, RuleTable.inserted_of_id? hid]
    exact h

theorem ofInserts_concat (inserts : List Rule) (rule : Rule) :
    ofInserts pairs (inserts ++ [rule]) = ((ofInserts pairs inserts).insert rule).2 := by
  rw [ofInserts, List.foldl_append]
  rfl

theorem inStep_ofInserts (hpairs : pairs.IsOneToOne) (inserts : List Rule) :
    (ofInserts pairs inserts).InStep (.ofInserts inserts) := by
  induction inserts using List.reverseRecOn with
  | nil => exact inStep_empty hpairs
  | append_singleton inserts rule ih =>
      rw [ofInserts_concat, RuleTable.ofInserts_concat]
      exact ih.insert hpairs rule

/-- The places that the map gives to names are the places where these stand. -/
theorem InStep.left?_eq (hpairs : pairs.IsOneToOne) (h : indexed.InStep table) (id : RuleId) :
    pairs.left? indexed.names id = (table.rule? id).map Rule.name := by
  refine Option.ext fun name => ?_
  rw [← hpairs.right?_eq_some_iff, h.right?_eq, RuleTable.id?_eq_some_iff_rule?,
    Option.map_eq_some_iff]

/-- Two parts that are in step with a table answer as the table does. -/
theorem InStep.view_eq (hpairs : pairs.IsOneToOne) (h : indexed.InStep table) :
    indexed.view = table.view := by
  have hname (id : RuleId) : indexed.nameOf id = table.nameOf id := by
    rw [nameOf, h.left?_eq hpairs, RuleTable.nameOf]
  have hnodes (id : RuleId) : indexed.nodesAt? id = (table.rule? id).map Rule.nodes := by
    rw [nodesAt?, h.getElem?_eq, Option.map_map]
    rfl
  have hcontains (name : String) :
      (pairs.right? indexed.names name).isSome = table.contains name := by
    rw [h.right?_eq, Bool.eq_iff_iff, Option.isSome_iff_exists, RuleTable.exists_id?_iff,
      RuleTable.contains_iff]
  have hget (name : String) :
      (pairs.right? indexed.names name).bind indexed.nodesAt? = table.nodes? name := by
    rw [h.right?_eq, funext hnodes, RuleTable.bind_map_rule?]
    rfl
  have hspan (id : RuleId) :
      indexed.rules[id.index]?.map Prod.snd = (table.rule? id).map Rule.span := by
    rw [h.getElem?_eq, Option.map_map]
    rfl
  rw [view, RuleTable.view, RuleTable.View.mk.injEq]
  refine ⟨h.length_eq, ?_, funext hcontains, funext h.right?_eq, funext hget, funext hname,
    funext hnodes, funext hspan, ?_⟩
  · rw [← h.length_eq, Bool.eq_iff_iff, List.isEmpty_iff, beq_iff_eq, List.length_eq_zero_iff]
  · refine List.ext_getElem? fun index => ?_
    have hrule := h.getElem?_eq ⟨index⟩
    rw [List.getElem?_map, List.getElem?_zipIdx, hrule, List.getElem?_map, Nat.zero_add]
    show _ = (table.rule? ⟨index⟩).map _
    rcases hplace : table.rule? ⟨index⟩ with _ | rule
    · rfl
    · simp [hname, RuleTable.nameOf_of_rule? hplace]

end IndexedTable

namespace RuleTable

/-- After any inserts a table answers for the first insert of each name and for nothing else:
    the names stand one to one for the places below its size, which is how many names there
    are, and the rules are listed in the order of these inserts.  A further insert of a name
    that is taken is answered with the place of the rule that has it, and leaves the table as
    it is; any other one is answered with the next place.

    A table in two parts, a row of rules and a one-to-one map between names and places, is not
    to be told from it. -/
theorem inserts_are_kept_in_order {pairs : PairMap String RuleId} (hpairs : pairs.IsOneToOne)
    (inserts : List Rule) :
    let table := ofInserts inserts
    let indexed := IndexedTable.ofInserts pairs inserts
    table.view.Lists inserts ∧ indexed.view = table.view ∧
    ∀ rule : Rule,
      (rule.name ∈ inserts.map Rule.name →
        ∃ id, table.id? rule.name = some id ∧ table.insert rule = .error id ∧
          table.inserted rule = (.error id, table) ∧
          indexed.insert rule = (.error id, indexed)) ∧
      (rule.name ∉ inserts.map Rule.name →
        table.inserted rule = (.ok ⟨table.size⟩, ofInserts (inserts ++ [rule])) ∧
        indexed.insert rule =
          (.ok ⟨table.size⟩, IndexedTable.ofInserts pairs (inserts ++ [rule]))) := by
  intro table indexed
  have hinStep : indexed.InStep table := IndexedTable.inStep_ofInserts hpairs inserts
  refine ⟨lists_view inserts, hinStep.view_eq hpairs, fun rule => ⟨fun hmem => ?_, fun hmem => ?_⟩⟩
  · obtain ⟨id, hid⟩ := exists_id?_iff.2 (mem_names_ofInserts.2 hmem)
    exact ⟨id, hid, insert_of_id? hid, inserted_of_id? hid, hinStep.insert_of_id? hid⟩
  · have hnone : table.id? rule.name = none :=
      id?_eq_none_iff.2 fun h => hmem (mem_names_ofInserts.1 h)
    have hanswer : (indexed.insert rule).1 = .ok ⟨table.size⟩ := by
      rw [hinStep.insert_of_fresh hnone]
    rw [ofInserts_concat, IndexedTable.ofInserts_concat]
    exact ⟨Prod.ext (inserted_of_fresh hnone).1 rfl, Prod.ext hanswer rfl⟩

end RuleTable

-- ============================================================================
-- One-to-one maps
-- ============================================================================

namespace PairMap

variable {α β : Type} [DecidableEq α] [DecidableEq β]

/-- A partial bijection with another pair, without those that it conflicts with. -/
def insertPair (map : α ≃. β) (a : α) (b : β) : α ≃. β where
  toFun x := if x = a then some b else if map x = some b then none else map x
  invFun y := if y = b then some a else if map.symm y = some a then none else map.symm y
  inv x y := by
    have hpair : map.symm y = some x ↔ map x = some y := map.inv x y
    have hright : map.symm y = some a ↔ map a = some y := map.inv a y
    have hleft : map.symm b = some x ↔ map x = some b := map.inv x b
    show (if y = b then some a else if map.symm y = some a then none else map.symm y) = some x ↔
      (if x = a then some b else if map x = some b then none else map x) = some y
    grind

variable (α β) in
/-- Partial bijections as maps that can be looked up from both sides. -/
def ofPEquiv : PairMap α β where
  Map := α ≃. β
  empty := ⊥
  insert := insertPair
  right? map a := map a
  left? map b := map.symm b

theorem isOneToOne_ofPEquiv : (ofPEquiv α β).IsOneToOne where
  right?_eq_some_iff map a b := (PEquiv.inv map a b).symm
  right?_empty _ := rfl
  right?_insert (map : α ≃. β) a x b y := by
    show (if x = a then some b else if map x = some b then none else map x) = some y ↔
      x = a ∧ y = b ∨ x ≠ a ∧ y ≠ b ∧ map x = some y
    grind

end PairMap

namespace RuleTable

/-- Three inserts, the last one of a name that is taken. -/
def pairedInserts : List Rule :=
  [⟨"pair", [.ref .plain ⟨8, 12⟩ "item"], ⟨0, 12⟩⟩, ⟨"item", [], ⟨13, 17⟩⟩, ⟨"pair", [], ⟨18, 25⟩⟩]

/-- The first of the two rules of one name is the one that is found and listed. -/
theorem first_pair_is_kept :
    (PairMap.ofPEquiv String RuleId).IsOneToOne ∧
    let indexed := IndexedTable.ofInserts (PairMap.ofPEquiv String RuleId) pairedInserts
    indexed.view.size = 2 ∧
    indexed.view.nodes? "pair" = some [.ref .plain ⟨8, 12⟩ "item"] ∧
    indexed.view.listed = [("pair", [.ref .plain ⟨8, 12⟩ "item"]), ("item", [])] ∧
    indexed.insert ⟨"item", [], ⟨26, 30⟩⟩ = (.error ⟨1⟩, indexed) := by
  obtain ⟨hlists, hview, hinsert⟩ :=
    inserts_are_kept_in_order PairMap.isOneToOne_ofPEquiv pairedInserts
  obtain ⟨id, hid, -, -, hrefused⟩ := (hinsert ⟨"item", [], ⟨26, 30⟩⟩).1 (by decide)
  refine ⟨PairMap.isOneToOne_ofPEquiv, ?_, ?_, ?_, ?_⟩
  · rw [hview, hlists.size_eq]
    decide
  · rw [hview, hlists.nodes?_eq]
    rfl
  · rw [hview, hlists.listed_eq]
    rfl
  · have hplace : (ofInserts pairedInserts).id? "item" = some ⟨1⟩ := by rfl
    rw [hrefused, ← Option.some.inj (hplace.symm.trans hid)]

end RuleTable

end TokenGrammar
