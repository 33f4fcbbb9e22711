import FormRouting.Json.Value

/-!
# Predicates and key functions

Rules can hand a decision to a predicate, and the choice of a key to a key
function. Rules read from a file only carry the name; a registry attaches the
function later. Rules built in a program may carry a function without a name.

`C` is the type of the context that the program hands to every call.
-/

namespace FormRouting

/-- What a rule tells its predicate: the field it is about and the value it expects. -/
structure Operands where
  field : String
  value : Option Json
deriving Inhabited

/-- A function of the current value, the context and the operands of the rule. -/
abbrev Predicate.Body (C : Type) := Option Json → C → Operands → Bool

/-- A predicate by name, by function or by both. -/
structure Predicate (C : Type) where
  name : Option String
  body : Option (Predicate.Body C)
deriving Inhabited

namespace Predicate

variable {C : Type}

/-- A name without a function. -/
def reference (name : String) : Predicate C := ⟨some name, none⟩

def named (name : String) (body : Body C) : Predicate C := ⟨some name, some body⟩

def anonymous (body : Body C) : Predicate C := ⟨none, some body⟩

def isBound (p : Predicate C) : Bool := p.body.isSome

/-- Attach a function and keep the name. -/
def bind (p : Predicate C) (body : Body C) : Predicate C := { p with body := some body }

end Predicate

/-- A function of the context that may give a key. -/
abbrev KeyFunction.Body (C : Type) := C → Option String

/-- A key function by name, by function or by both. -/
structure KeyFunction (C : Type) where
  name : Option String
  body : Option (KeyFunction.Body C)
deriving Inhabited

namespace KeyFunction

variable {C : Type}

/-- A name without a function. -/
def reference (name : String) : KeyFunction C := ⟨some name, none⟩

def named (name : String) (body : Body C) : KeyFunction C := ⟨some name, some body⟩

def anonymous (body : Body C) : KeyFunction C := ⟨none, some body⟩

def isBound (f : KeyFunction C) : Bool := f.body.isSome

/-- Attach a function and keep the name. -/
def bind (f : KeyFunction C) (body : Body C) : KeyFunction C := { f with body := some body }

end KeyFunction

end FormRouting
