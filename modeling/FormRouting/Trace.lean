import FormRouting.Callable
import FormRouting.Notice

/-!
# Traces

What can be observed while conditions are evaluated: the fields that were looked
up, the predicates that were called, and the notices that were written, in order.
-/

namespace FormRouting

inductive Event where
  | lookup (field : String)
  | call (predicate : Option String) (current : Option Json) (operands : Operands)
  | notice (notice : Notice)
deriving Inhabited

/-- A result with the events that led to it. -/
structure Traced (α : Type) where
  value : α
  trace : List Event
deriving Inhabited

/-- A call of a predicate. -/
structure Call where
  predicate : Option String
  current : Option Json
  operands : Operands
deriving Inhabited

namespace Event

def lookup? : Event → Option String
  | .lookup f => some f
  | _ => none

def call? : Event → Option Call
  | .call predicate current operands => some ⟨predicate, current, operands⟩
  | _ => none

def notice? : Event → Option Notice
  | .notice n => some n
  | _ => none

end Event

/-- The fields looked up in a trace. -/
def lookups (trace : List Event) : List String := trace.filterMap Event.lookup?

/-- The predicate calls of a trace. -/
def calls (trace : List Event) : List Call := trace.filterMap Event.call?

/-- The notices of a trace. -/
def notices (trace : List Event) : List Notice := trace.filterMap Event.notice?

end FormRouting
