import RowModel.Value.Basic

/-!
What the machine decides that runs a program, and no document. Collections inside one another, and
keys that lead from mapping to mapping, take nested calls, and of these there are only so many; the
members of a set come in an order of the machine. What is said of documents holds on every machine.
-/
namespace RowModel

/-- When a value is put into words. The calls that are under way then count towards the limit. -/
inductive Occasion where
  /-- When the version of a document is looked at. -/
  | version
  /-- In the message on a version that is not supported. -/
  | message
  /-- When it becomes the version of settings. -/
  | settings
  /-- At the column or the SQL type of an entry, inside of a package or outside of all. -/
  | entry (package : Option String)
  /-- In the message on an entry that has both. -/
  | conflict (package : Option String)
  deriving DecidableEq, Repr

class Machine where
  /-- How many collections may stand around a node that is read. -/
  reading : Nat
  /-- How many merge keys may be followed from one mapping to the next. -/
  merging : Nat
  /-- How many keys `=` may be followed from one mapping to the next. -/
  spelling : Nat
  /-- How many collections inside one another can be put into words. -/
  wording : Occasion → Nat
  /-- The texts of a set's members as they are written, one after the other. -/
  order : List Value → List String → List String
  order_perm : ∀ members texts, (order members texts).Perm texts

namespace Machine

/-- A machine with a thousand nested calls that keeps the members of a set in their order. The numbers
stand for the interpreter's limit on nested calls. What this leaves depends on the caller and on the
content: from an empty stack 489 to 493 collections around a node could be read. -/
instance usual : Machine where
  reading := 488
  merging := 980
  spelling := 980
  wording _ := 980
  order _ texts := texts
  order_perm _ texts := .refl texts

end Machine

end RowModel
