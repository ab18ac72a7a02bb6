import RelAlg.Cursor.Operators

set_option autoImplicit false

namespace RelAlg

inductive Plan where
  | scan (r : Relation)
  | select (condition : Condition) (input : Plan)
  | project (names : List String) (input : Plan)
  | rename (name : String) (input : Plan)
  | union (left right : Plan)
  | difference (left right : Plan)
  | join (names : List String) (left right : Plan)

/-- Whether the condition holds of a tuple; if that fails, the query fails and quotes it. -/
def Condition.check (c : Condition) (t : Tuple) : Except QueryError Bool :=
  match c.holds t with
  | .ok b => .ok b
  | .error e => .error (.condition c.text e)

namespace Plan

open Cursor in
/-- The cursor of a plan, not opened yet. A new name changes no tuple. -/
def cursor : Plan → Cursor
  | scan r => gate (ofRelation r)
  | select c p => gate (filtered c.check p.cursor)
  | project names p => gate (distinct (·.project names) p.cursor)
  | rename _ p => gate p.cursor
  | union l r => gate (distinct id (append l.cursor r.cursor))
  | difference l r => gate (Cursor.difference l.cursor r.cursor)
  | join names l r => gate (Cursor.join names l.cursor r.cursor)

def run (p : Plan) : Except QueryError Relation :=
  (p.cursor.collect p.cursor.start).1

end Plan

namespace Relation

def select (r : Relation) (c : Condition) : Except QueryError Relation :=
  (Plan.select c (.scan r)).run

def project (r : Relation) (names : List String) : Except QueryError Relation :=
  (Plan.project names (.scan r)).run

def rename (r : Relation) (name : String) : Except QueryError Relation :=
  (Plan.rename name (.scan r)).run

def union (l r : Relation) : Except QueryError Relation :=
  (Plan.union (.scan l) (.scan r)).run

def difference (l r : Relation) : Except QueryError Relation :=
  (Plan.difference (.scan l) (.scan r)).run

def join (l r : Relation) (names : List String) : Except QueryError Relation :=
  (Plan.join names (.scan l) (.scan r)).run

end Relation

end RelAlg
